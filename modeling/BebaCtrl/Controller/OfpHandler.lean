import Mathlib.Data.Finset.Max
import BebaCtrl.Controller.RecvLoop

/-!
# The handshake of a datapath

`OFPHandler` moves a datapath from the handshake over its configuration to normal operation: a
Hello with a usable version leads to `config`, a Features Reply (before OpenFlow 1.3) or the last
part of a port description (from 1.3 on) leads to `main`. A handler runs only while the datapath
is in one of the dispatcher states it is registered for; an exception in a handler ends the
receive loop and leaves the datapath `dead`.

A handler returns the datapath as it left it, with the exception it raised if it raised one.
-/

namespace BebaCtrl

inductive Dispatcher where
  | handshake
  | config
  | main
  | dead
  deriving DecidableEq, Repr

/-- The versions every application of the process supports. -/
structure SupportedVersions where
  versions : Finset Nat
  nonempty : versions.Nonempty
  known : ∀ v ∈ versions, v ∈ registeredVersions

/-- `max` of a set of versions. -/
def maxVersion (vs : Finset Nat) : Nat := vs.max.unbotD 0

theorem maxVersion_mem {vs : Finset Nat} (h : vs.Nonempty) : maxVersion vs ∈ vs := by
  obtain ⟨v, hmax⟩ := Finset.max_of_nonempty h
  rw [maxVersion, hmax]
  exact Finset.mem_of_max hmax

/-- A port description; `desc` is everything but the port number. -/
structure Port where
  portNo : Nat
  desc : Bytes
  deriving DecidableEq, Repr

abbrev Ports := Nat → Option Port

/-- Why a Hello was refused: the values in the four error texts of `hello_handler`. -/
inductive HelloError where
  /-- `'no compatible version found: switch versions %s controller version 0x%x, the negotiated
  version is 0x%x, but no usable version found. If possible, set the switch to use one of OF
  version %s'` -/
  | noneUsable (switch : Finset Nat) (controller negotiated : Nat) (supported : Finset Nat)
  /-- `'no compatible version found: switch versions 0x%x controller version 0x%x, the negotiated
  version is %s but found usable %s. If possible, set the switch to use one of OF version %s'` -/
  | otherUsable (switch controller : Nat) (negotiated usable : Finset Nat)
  /-- `'no compatible version found: switch 0x%x controller 0x%x, but found usable 0x%x. If
  possible, set the switch to use OF version 0x%x'` -/
  | lowerUsable (switch controller usable : Nat)
  /-- `'unsupported version 0x%x. If possible, set the switch to use one of the versions %s'` -/
  | unsupported (switch : Nat) (supported : Finset Nat)
  deriving DecidableEq

/-- The messages the handlers pass to `send_msg`. -/
inductive Sent where
  | helloFailed (desc : HelloError)
  | featuresRequest
  | portDescStatsRequest (flags : Nat)
  | echoReply (xid : Nat) (data : Bytes)
  deriving DecidableEq

structure Datapath where
  supported : SupportedVersions
  /-- `ofproto.OFP_VERSION` -/
  version : Nat
  state : Dispatcher
  id : Option Nat
  ports : Option Ports
  closeRequested : Bool
  sent : List Sent

/-- The messages the handlers look at. Message classes of one name share an event in all
versions, so the version of a message need not be that of the datapath; `ports` is missing from
the Features Reply of OpenFlow 1.3 and later. -/
inductive Msg where
  | hello (version : Nat) (elements : List (List Nat))
  | switchFeatures (datapathId : Nat) (ports : Option Ports)
  | portDescStatsReply (flags : Nat) (body : List Port)
  | echoRequest (xid : Nat) (data : Bytes)
  | errorMsg (data : Bytes)
  | errorExperimenterMsg (experimenter : Nat) (data : Bytes)
  | other

namespace Datapath

/-- `Datapath.__init__` -/
def fresh (supported : SupportedVersions) : Datapath where
  supported := supported
  version := maxVersion supported.versions
  state := .handshake
  id := none
  ports := none
  closeRequested := false
  sent := []

def setVersion (dp : Datapath) (version : Nat) : PyResult Datapath := do
  pyAssert (version ∈ dp.supported.versions)
  return { dp with version := version }

def send (dp : Datapath) (m : Sent) : Datapath := { dp with sent := dp.sent ++ [m] }

/-- The part of `hello_handler` that finds the version to use. -/
def negotiate (dp : Datapath) (version : Nat) (elements : List (List Nat)) :
    Except HelloError Nat :=
  let supported := dp.supported.versions
  let choose (usable : Finset Nat) : Except HelloError Nat :=
    if usable.Nonempty then .ok (maxVersion usable) else .error (.unsupported version supported)
  if elements ≠ [] then
    let switchVersions := elements.flatten.toFinset
    let usable := switchVersions ∩ supported
    let negotiated := switchVersions.filter (· ≤ maxVersion supported)
    if negotiated.Nonempty ∧ ¬usable.Nonempty then
      .error (.noneUsable switchVersions (maxVersion supported) (maxVersion negotiated) supported)
    else if negotiated.Nonempty ∧ usable.Nonempty ∧
        maxVersion negotiated ≠ maxVersion usable then
      .error (.otherUsable (maxVersion switchVersions) (maxVersion supported) negotiated usable)
    else choose usable
  else
    let usable := supported.filter (· ≤ version)
    if usable.Nonempty ∧ maxVersion usable ≠ min version dp.version then
      .error (.lowerUsable version dp.version (maxVersion usable))
    else choose usable

def helloHandler (dp : Datapath) (version : Nat) (elements : List (List Nat)) :
    Datapath × Option PyErr :=
  match dp.negotiate version elements with
  | .error e => (dp.send (.helloFailed e), none)
  | .ok v =>
    match dp.setVersion v with
    | .error e => (dp, some e)
    | .ok dp => (send { dp with state := .config } .featuresRequest, none)

def switchFeaturesHandler (dp : Datapath) (datapathId : Nat) (ports : Option Ports) :
    Datapath × Option PyErr :=
  let dp := { dp with id := some datapathId }
  if dp.version < 0x04 then
    match ports with
    | none => (dp, some .attributeError)
    | some ports => ({ dp with ports := some ports, state := .main }, none)
  else (send { dp with ports := some fun _ => none } (.portDescStatsRequest 0), none)

/-- `for port in body: ports[port.port_no] = port`, where `ports` may be `None`. -/
def storePorts : Option Ports → List Port → PyResult (Option Ports)
  | ports, [] => .ok ports
  | none, _ :: _ => .error .typeError
  | some ports, port :: body =>
      storePorts (some (Function.update ports port.portNo (some port))) body

/-- The constant `OFPMPF_REPLY_MORE`, which exists from OpenFlow 1.3 on. -/
def replyMore (version : Nat) : PyResult Nat :=
  if version < 0x04 then .error .attributeError else .ok 1

def multipartReplyHandler (dp : Datapath) (flags : Nat) (body : List Port) :
    Datapath × Option PyErr :=
  match storePorts dp.ports body with
  | .error e => (dp, some e)
  | .ok ports =>
    let dp := { dp with ports := ports }
    match replyMore dp.version with
    | .error e => (dp, some e)
    | .ok more => if flags &&& more ≠ 0 then (dp, none) else ({ dp with state := .main }, none)

def echoRequestHandler (dp : Datapath) (xid : Nat) (data : Bytes) : Datapath × Option PyErr :=
  (dp.send (.echoReply xid data), none)

/-- The error is only logged, but its data is first read as a message header. -/
def errorMsgHandler (dp : Datapath) (data : Bytes) : Datapath × Option PyErr :=
  match header data with
  | .error e => (dp, some e)
  | .ok _ => (dp, none)

def expErrorMsgHandler (dp : Datapath) (experimenter : Nat) (data : Bytes) :
    Datapath × Option PyErr :=
  if experimenter = bebaExperimenterId then
    match Struct.unpackFrom ofpHeaderPackStr data 0 with
    | .error e => (dp, some e)
    | .ok _ => (dp, none)
  else (dp, none)

/-- The states in which the handler of a message is registered. -/
def dispatchers : Msg → List Dispatcher
  | .hello .. => [.handshake]
  | .switchFeatures .. | .portDescStatsReply .. => [.config]
  | .echoRequest .. | .errorMsg .. | .errorExperimenterMsg .. => [.handshake, .config, .main]
  | .other => []

def handler (dp : Datapath) : Msg → Datapath × Option PyErr
  | .hello version elements => dp.helloHandler version elements
  | .switchFeatures datapathId ports => dp.switchFeaturesHandler datapathId ports
  | .portDescStatsReply flags body => dp.multipartReplyHandler flags body
  | .echoRequest xid data => dp.echoRequestHandler xid data
  | .errorMsg data => dp.errorMsgHandler data
  | .errorExperimenterMsg experimenter data => dp.expErrorMsgHandler experimenter data
  | .other => (dp, none)

/-- The handlers run for a message in the present state. -/
def handle (dp : Datapath) (m : Msg) : Datapath × Option PyErr :=
  if dp.state ∈ dispatchers m then dp.handler m else (dp, none)

end Datapath

/-- What happens to a datapath: a message arrives, or the connection is closed by an application,
by the send loop or by the peer. -/
inductive Event where
  | recv (m : Msg)
  | close

variable {dp : Datapath}

namespace Datapath

def step (dp : Datapath) : Event → Datapath
  | .recv m =>
    match dp.handle m with
    | (dp, none) => dp
    | (dp, some _) => { dp with state := .dead }
  | .close => { dp with closeRequested := true, state := .dead }

def run (dp : Datapath) (evs : List Event) : Datapath := evs.foldl step dp

theorem run_concat (dp : Datapath) (evs : List Event) (ev : Event) :
    dp.run (evs ++ [ev]) = (dp.run evs).step ev := by
  simp [run]

/-! ## What a step can do -/

variable {version v : Nat} {elements : List (List Nat)}

theorem negotiate_mem (h : dp.negotiate version elements = .ok v) : v ∈ dp.supported.versions := by
  have hchoose : ∀ {usable : Finset Nat} {e : HelloError}, usable ⊆ dp.supported.versions →
      (if usable.Nonempty then .ok (maxVersion usable) else .error e) = Except.ok v →
      v ∈ dp.supported.versions := by
    intro usable e hsub hv
    split at hv
    · rename_i hne
      cases hv
      exact hsub (maxVersion_mem hne)
    · cases hv
  unfold negotiate at h
  simp only at h
  split at h
  · split at h
    · cases h
    · split at h
      · cases h
      · exact hchoose Finset.inter_subset_right h
  · split at h
    · cases h
    · exact hchoose (Finset.filter_subset _ _) h

theorem helloHandler_ok (h : dp.negotiate version elements = .ok v) :
    dp.helloHandler version elements =
      (send { dp with version := v, state := .config } .featuresRequest, none) := by
  rw [helloHandler, h]
  simp only [setVersion, pyAssert_pos (negotiate_mem h)]
  rfl

variable {ports : Option Ports} {body : List Port}

theorem storePorts_isSome {ports' : Option Ports}
    (h : storePorts ports body = .ok ports') : ports'.isSome = ports.isSome := by
  fun_induction storePorts ports body with
  | case1 => cases h; rfl
  | case2 => cases h
  | case3 ports port body ih => exact ih h

theorem storePorts_none (h : storePorts none body = .ok ports) : body = [] := by
  cases body with
  | nil => rfl
  | cons port body => cases h

/-- What changes between `dp` and `dp'`, by the kind of the event. -/
inductive StepKind (dp : Datapath) : Event → Datapath → Prop where
  | dies {ev : Event} {dp' : Datapath} (hs : dp'.state = .dead) : StepKind dp ev dp'
  | idle {ev : Event} {dp' : Datapath} (hs : dp'.state = dp.state) (hid : dp'.id = dp.id)
      (hports : dp'.ports.isSome = dp.ports.isSome) : StepKind dp ev dp'
  | hello {version v : Nat} {elements : List (List Nat)} {dp' : Datapath}
      (hdp : dp.state = .handshake) (hv : dp.negotiate version elements = .ok v)
      (hs : dp'.state = .config) (hid : dp'.id = dp.id) (hports : dp'.ports = dp.ports) :
      StepKind dp (.recv (.hello version elements)) dp'
  | features {datapathId : Nat} {ports : Option Ports} {dp' : Datapath}
      (hdp : dp.state = .config) (hs : dp'.state = .config ∨ dp'.state = .main)
      (hid : dp'.id = some datapathId) : StepKind dp (.recv (.switchFeatures datapathId ports)) dp'
  | lastPorts {flags : Nat} {body : List Port} {dp' : Datapath}
      (hdp : dp.state = .config) (hversion : 4 ≤ dp.version) (hflags : flags &&& 1 = 0)
      (hbody : dp.ports = none → body = []) (hs : dp'.state = .main) (hid : dp'.id = dp.id) :
      StepKind dp (.recv (.portDescStatsReply flags body)) dp'

theorem stepKind_hello (hdp : dp.state = .handshake) (version : Nat) (elements : List (List Nat)) :
    StepKind dp (.recv (.hello version elements)) (dp.step (.recv (.hello version elements))) := by
  have hh : dp.handle (.hello version elements) = dp.helloHandler version elements := by
    rw [handle, if_pos (by simp [dispatchers, hdp])]; rfl
  rw [step, hh]
  cases hn : dp.negotiate version elements with
  | error e =>
    rw [helloHandler, hn]
    exact .idle rfl rfl rfl
  | ok v =>
    rw [helloHandler_ok hn]
    exact .hello hdp hn rfl rfl rfl

theorem stepKind_features (hdp : dp.state = .config) (datapathId : Nat) (ports : Option Ports) :
    StepKind dp (.recv (.switchFeatures datapathId ports))
      (dp.step (.recv (.switchFeatures datapathId ports))) := by
  have hh : dp.handle (.switchFeatures datapathId ports) =
      dp.switchFeaturesHandler datapathId ports := by
    rw [handle, if_pos (by simp [dispatchers, hdp])]; rfl
  rw [step, hh]
  unfold switchFeaturesHandler
  by_cases hv : dp.version < 4
  · simp only [if_pos hv]
    cases ports with
    | none => exact .dies rfl
    | some ports => exact .features hdp (.inr rfl) rfl
  · simp only [if_neg hv]
    exact .features hdp (.inl hdp) rfl

theorem stepKind_portDesc (hdp : dp.state = .config) (flags : Nat) (body : List Port) :
    StepKind dp (.recv (.portDescStatsReply flags body))
      (dp.step (.recv (.portDescStatsReply flags body))) := by
  have hh : dp.handle (.portDescStatsReply flags body) = dp.multipartReplyHandler flags body := by
    rw [handle, if_pos (by simp [dispatchers, hdp])]; rfl
  rw [step, hh, multipartReplyHandler]
  cases hp : storePorts dp.ports body with
  | error e => exact .dies rfl
  | ok ports =>
    simp only [replyMore]
    by_cases hv : dp.version < 4
    · simp only [if_pos hv]
      exact .dies rfl
    · simp only [if_neg hv]
      by_cases hf : flags &&& 1 = 0
      · rw [if_neg (by simpa using hf)]
        exact .lastPorts hdp (by omega) hf (fun hn => storePorts_none (hn ▸ hp)) rfl rfl
      · rw [if_pos hf]
        exact .idle rfl rfl (storePorts_isSome hp)

/-- Handlers other than the three above leave state, id and ports alone or raise. -/
theorem stepKind_quiet {dp dp' : Datapath} {m : Msg} {err : Option PyErr}
    (hh : dp.handle m = (dp', err)) (hs : dp'.state = dp.state) (hid : dp'.id = dp.id)
    (hports : dp'.ports = dp.ports) : StepKind dp (.recv m) (dp.step (.recv m)) := by
  rw [step, hh]
  cases err with
  | none => exact .idle hs hid (by rw [hports])
  | some e => exact .dies rfl

theorem step_cases (dp : Datapath) (ev : Event) : StepKind dp ev (dp.step ev) := by
  cases ev with
  | close => exact .dies rfl
  | recv m =>
    by_cases hd : dp.state ∈ dispatchers m
    · have hh : dp.handle m = dp.handler m := if_pos hd
      cases m with
      | hello version elements => exact stepKind_hello (by simpa [dispatchers] using hd) _ _
      | switchFeatures i ports => exact stepKind_features (by simpa [dispatchers] using hd) _ _
      | portDescStatsReply flags body =>
          exact stepKind_portDesc (by simpa [dispatchers] using hd) _ _
      | echoRequest xid data => exact stepKind_quiet hh rfl rfl rfl
      | errorMsg data =>
        rw [handler, errorMsgHandler] at hh
        split at hh <;> exact stepKind_quiet hh rfl rfl rfl
      | errorExperimenterMsg experimenter data =>
        rw [handler, expErrorMsgHandler] at hh
        split at hh
        · split at hh <;> exact stepKind_quiet hh rfl rfl rfl
        · exact stepKind_quiet hh rfl rfl rfl
      | other => exact stepKind_quiet hh rfl rfl rfl
    · exact stepKind_quiet (if_neg hd) rfl rfl rfl

end Datapath

/-! ## Which datapaths reach normal operation -/

section Established

variable (supported : SupportedVersions)

/-- A Hello with a usable version was processed. -/
def HelloAccepted (evs : List Event) : Prop :=
  ∃ pre version elements v post, evs = pre ++ .recv (.hello version elements) :: post ∧
    ((Datapath.fresh supported).run pre).state = .handshake ∧
    ((Datapath.fresh supported).run pre).negotiate version elements = .ok v

/-- After an accepted Hello a Features Reply was processed, and its id is the datapath's. -/
def Established (evs : List Event) : Prop :=
  ∃ pre datapathId ports post, evs = pre ++ .recv (.switchFeatures datapathId ports) :: post ∧
    HelloAccepted supported pre ∧ ((Datapath.fresh supported).run pre).state = .config ∧
    ((Datapath.fresh supported).run evs).id = some datapathId

/-- The event is the last part of a port description, without ports, that arrives before any
Features Reply was processed. -/
def Premature (dp : Datapath) (ev : Event) : Prop :=
  dp.state = .config ∧ dp.id = none ∧ 4 ≤ dp.version ∧
    ∃ flags, ev = .recv (.portDescStatsReply flags []) ∧ flags &&& 1 = 0

variable {supported} {evs : List Event}

theorem HelloAccepted.concat (h : HelloAccepted supported evs) (ev : Event) :
    HelloAccepted supported (evs ++ [ev]) := by
  obtain ⟨pre, version, elements, v, post, rfl, hs, hv⟩ := h
  exact ⟨pre, version, elements, v, post ++ [ev], by simp, hs, hv⟩

variable {ev : Event}

theorem Established.concat (h : Established supported evs)
    (hid : ((Datapath.fresh supported).run (evs ++ [ev])).id =
      ((Datapath.fresh supported).run evs).id) :
    Established supported (evs ++ [ev]) := by
  obtain ⟨pre, datapathId, ports, post, rfl, hh, hs, hi⟩ := h
  exact ⟨pre, datapathId, ports, post ++ [ev], by simp, hh, hs, hid.trans hi⟩

/-- What is known of a datapath in each state, as long as no port description was premature. -/
structure Progress (supported : SupportedVersions) (evs : List Event) : Prop where
  handshake : ((Datapath.fresh supported).run evs).state = .handshake →
    ((Datapath.fresh supported).run evs).id = none ∧
      ((Datapath.fresh supported).run evs).ports = none
  config : ((Datapath.fresh supported).run evs).state = .config → HelloAccepted supported evs ∧
    (((Datapath.fresh supported).run evs).id = none ∧
      ((Datapath.fresh supported).run evs).ports = none ∨ Established supported evs)
  main : ((Datapath.fresh supported).run evs).state = .main → Established supported evs

theorem Progress.nil : Progress supported [] where
  handshake _ := ⟨rfl, rfl⟩
  config h := nomatch h
  main h := nomatch h

/-- A state change decides which field of `Progress` is at stake. -/
theorem Progress.of_state {d : Dispatcher} (hs : ((Datapath.fresh supported).run evs).state = d)
    (h : match d with
      | .handshake => ((Datapath.fresh supported).run evs).id = none ∧
        ((Datapath.fresh supported).run evs).ports = none
      | .config => HelloAccepted supported evs ∧ (((Datapath.fresh supported).run evs).id = none ∧
        ((Datapath.fresh supported).run evs).ports = none ∨ Established supported evs)
      | .main => Established supported evs
      | .dead => True) :
    Progress supported evs := by
  constructor <;> intro hd <;> rw [hs] at hd <;> subst hd <;> exact h

theorem Progress.concat (h : Progress supported evs)
    (htimely : ¬Premature ((Datapath.fresh supported).run evs) ev) :
    Progress supported (evs ++ [ev]) := by
  have hrun := Datapath.run_concat (.fresh supported) evs ev
  have hkind := Datapath.step_cases ((Datapath.fresh supported).run evs) ev
  rw [← hrun] at hkind
  have hports : ∀ {dp dp' : Datapath}, dp'.ports.isSome = dp.ports.isSome → dp.ports = none →
      dp'.ports = none := by
    intro dp dp' hsome hnone
    rw [hnone] at hsome
    exact Option.isNone_iff_eq_none.1 (by simpa using hsome)
  cases hkind with
  | dies hs => exact .of_state hs trivial
  | idle hs hid hp =>
    refine ⟨fun hd => ?_, fun hd => ?_, fun hd => ?_⟩
    · obtain ⟨h1, h2⟩ := h.handshake (hs ▸ hd)
      exact ⟨hid.trans h1, hports hp h2⟩
    · obtain ⟨hh, h1 | h1⟩ := h.config (hs ▸ hd)
      · exact ⟨hh.concat ev, .inl ⟨hid.trans h1.1, hports hp h1.2⟩⟩
      · exact ⟨hh.concat ev, .inr (h1.concat hid)⟩
    · exact (h.main (hs ▸ hd)).concat hid
  | hello hdp hv hs hid hp =>
    obtain ⟨h1, h2⟩ := h.handshake hdp
    exact .of_state hs ⟨⟨evs, _, _, _, [], rfl, hdp, hv⟩, .inl ⟨hid.trans h1, hp.trans h2⟩⟩
  | @features datapathId ports _ hdp hs hid =>
    have hest : Established supported (evs ++ [.recv (.switchFeatures datapathId ports)]) :=
      ⟨evs, _, _, [], rfl, (h.config hdp).1, hdp, hid⟩
    rcases hs with hs | hs
    · exact .of_state hs ⟨(h.config hdp).1.concat _, .inr hest⟩
    · exact .of_state hs hest
  | lastPorts hdp hversion hflags hbody hs hid =>
    -- with no Features Reply so far the ports are unset and the body is empty: premature
    rcases (h.config hdp).2 with ⟨h1, h2⟩ | hest
    · exact (htimely ⟨hdp, h1, hversion, _, by rw [hbody h2], hflags⟩).elim
    · exact .of_state hs (hest.concat hid)

theorem progress_of_timely
    (h : ∀ pre ev, pre ++ [ev] <+: evs → ¬Premature ((Datapath.fresh supported).run pre) ev) :
    Progress supported evs := by
  induction evs using List.reverseRecOn with
  | nil => exact .nil
  | append_singleton evs ev ih =>
    have hpre : ∀ pre ev', pre ++ [ev'] <+: evs →
        ¬Premature ((Datapath.fresh supported).run pre) ev' :=
      fun pre ev' hp => h pre ev' (hp.trans (List.prefix_append evs [ev]))
    exact (ih hpre).concat (h evs ev List.prefix_rfl)

theorem step_premature (h : Premature dp ev) :
    (dp.step ev).state = .main ∧ (dp.step ev).id = none := by
  obtain ⟨hs, hid, hv, flags, rfl, hf⟩ := h
  have hh : dp.handle (.portDescStatsReply flags []) = dp.multipartReplyHandler flags [] := by
    rw [Datapath.handle, if_pos (by simp [Datapath.dispatchers, hs])]; rfl
  have hv' : ¬dp.version < 4 := by omega
  rw [Datapath.step, hh, Datapath.multipartReplyHandler]
  simp only [Datapath.storePorts, Datapath.replyMore, if_neg hv', hf, ne_eq, not_true_eq_false,
    if_false]
  exact ⟨trivial, hid⟩

/-- In a run from a fresh datapath, `main` is only reached by an accepted Hello and a Features
Reply behind it, whose id the datapath has, exactly when no empty port description ended the
configuration before a Features Reply was processed. -/
theorem main_established_iff (supported : SupportedVersions) (evs : List Event) :
    (∀ pre, pre <+: evs → ((Datapath.fresh supported).run pre).state = .main →
      Established supported pre) ↔
    ∀ pre ev, pre ++ [ev] <+: evs → ¬Premature ((Datapath.fresh supported).run pre) ev := by
  constructor
  · intro h pre ev hp hbad
    obtain ⟨hs, hid⟩ := step_premature hbad
    rw [← Datapath.run_concat] at hs hid
    obtain ⟨_, datapathId, _, _, _, _, _, hi⟩ := h _ hp hs
    rw [hid] at hi
    cases hi
  · intro h pre hp
    exact (progress_of_timely fun pre' ev hp' => h pre' ev (hp'.trans hp)).main

/-- The process supports every registered version. -/
def allVersions : SupportedVersions where
  versions := {1, 3, 4, 5, 6}
  nonempty := by decide
  known := by decide

/-- A Hello of version 1.3 followed by an unsolicited empty port description: the datapath is in
normal operation with no id. -/
theorem main_without_features :
    ((Datapath.fresh allVersions).run
      [.recv (.hello 4 []), .recv (.portDescStatsReply 0 [])]).state = .main ∧
    ((Datapath.fresh allVersions).run
      [.recv (.hello 4 []), .recv (.portDescStatsReply 0 [])]).id = none := by
  decide

end Established

/-! ## The handlers behind the receive loop -/

/-- The receive loop with `OFPHandler` behind it, for any message parsers. -/
def ofpApp (parsers : Nat → MsgParser Msg) : App Datapath Msg where
  parsers := parsers
  dispatch dp m :=
    match dp.handle m with
    | (dp, none) => some (.ok dp)
    | (_, some e) => some (.error e)
  closeRequested dp := dp.closeRequested

namespace Datapath

theorem handle_closeRequested (dp : Datapath) (m : Msg) :
    (dp.handle m).1.closeRequested = dp.closeRequested := by
  unfold handle
  split_ifs
  · cases m with
    | hello version elements =>
      cases h : dp.negotiate version elements with
      | error e => simp [handler, helloHandler, h, send]
      | ok v => exact congrArg (fun r => r.1.closeRequested) (helloHandler_ok h)
    | switchFeatures _ ports => cases ports <;> grind [handler, switchFeaturesHandler, send]
    | _ =>
      grind [handler, multipartReplyHandler, echoRequestHandler, errorMsgHandler,
        expErrorMsgHandler, send]
  · rfl

theorem run_dead (h : dp.state = .dead) (msgs : List Msg) :
    (dp.run (msgs.map .recv)).state = .dead := by
  induction msgs generalizing dp with
  | nil => exact h
  | cons m msgs ih =>
    refine ih ?_
    cases m <;> simp [step, handle, dispatchers, h]

end Datapath

variable {parsers : Nat → MsgParser Msg} {decode : Bytes → Msg} {msgs : List Bytes}

/-- Delivering the messages is a run of the datapath, in which an exception is its end. -/
theorem runs_ofpApp (hopen : dp.closeRequested = false)
    (hparse : ∀ m ∈ msgs, msg parsers (headerOf m) m = some (.ok (some (decode m)))) :
    ∃ handed res, Runs (ofpApp parsers) dp msgs handed res ∧
      match res with
      | .ok dp' => dp' = dp.run (msgs.map (.recv ∘ decode))
      | .error _ => (dp.run (msgs.map (.recv ∘ decode))).state = .dead := by
  induction msgs generalizing dp with
  | nil => exact ⟨[], .ok dp, .nil hopen, rfl⟩
  | cons m msgs ih =>
    obtain ⟨hm, hmsgs⟩ := List.forall_mem_cons.1 hparse
    have hkept := dp.handle_closeRequested (decode m)
    simp only [List.map_cons, Datapath.run, List.foldl_cons, Function.comp_apply]
    rcases hhandle : dp.handle (decode m) with ⟨dp', _ | e⟩
    · rw [hhandle] at hkept
      obtain ⟨handed, res, hruns, hres⟩ := ih (hkept.trans hopen) hmsgs
      simp only [Datapath.step, hhandle]
      exact ⟨m :: handed, res,
        .cons hopen (by simp only [Recv.deliver, ofpApp, hm, hhandle]) hruns, hres⟩
    · refine ⟨[m], .error e, .raise hopen (by simp only [Recv.deliver, ofpApp, hm, hhandle]), ?_⟩
      simp only [Datapath.step, hhandle, ← List.map_map]
      exact Datapath.run_dead rfl _

/-- However the stream of messages is cut into chunks, the datapath behind the receive loop is the
one that has taken the complete messages one by one; and where the loop has raised, that one is
dead. -/
theorem feed_ofpApp (decode : Bytes → Msg) {r : Recv Datapath} (hw : r.Waiting msgs)
    (hopen : r.dp.closeRequested = false) (hwf : ∀ m ∈ msgs, WellFormed m)
    (hparse : ∀ m ∈ msgs, msg parsers (headerOf m) m = some (.ok (some (decode m))))
    {evs : List SockEvent} (hev : Chunked evs) (hstream : r.buf ++ received evs <+: msgs.flatten)
    {fuel : Nat} (hfuel : 2 * msgs.length + 3 ≤ fuel) :
    let dp := r.dp.run
      ((msgs.take (complete msgs (r.buf ++ received evs).length)).map (.recv ∘ decode))
    ∃ r', Recv.feed (ofpApp parsers) fuel r evs = some r' ∧
      (r'.phase = .recv ∧ r'.dp = dp ∨ ∃ e, r'.phase = .raised e ∧ dp.state = .dead) := by
  intro dp
  obtain ⟨tail, htail, -⟩ := split_front msgs _ hstream
  obtain ⟨handed, res, hruns, hres⟩ :=
    runs_ofpApp hopen fun m hm => hparse m (List.mem_of_mem_take hm)
  obtain ⟨r', hfeed, -, hended⟩ := Recv.feed_runs evs hev hwf hw hstream htail hruns hfuel
  refine ⟨r', hfeed, ?_⟩
  cases res with
  | ok dp' => exact .inl ⟨hended.1, hended.2.2.1.trans hres⟩
  | error e => exact .inr ⟨e, hended, hres⟩

/-- A Hello without elements or a Features Reply of OpenFlow 1.3. -/
def handshakeMsg : Bytes → Msg
  | version :: 0 :: _ => .hello version.toNat []
  | _ :: 6 :: m => .switchFeatures (beDecode ((m.drop 6).take 8)) none
  | _ => .other

def hello13 : Bytes := [4, 0, 0, 8, 0, 0, 0, 1]

def features13 : Bytes := [4, 6, 0, 32, 0, 0, 0, 2, 0, 0, 0, 0, 0, 0, 0, 5] ++ zeros 16

/-- The chunks end within the Hello, within the Features Reply and with it. -/
def handshakeChunks : List SockEvent :=
  [.data (hello13.take 5), .timeout, .data (hello13.drop 5 ++ features13.take 20),
    .data (features13.drop 20)]

theorem feed_ofpApp_handshake :
    ∃ r, Recv.feed (ofpApp fun _ _ m => some (.ok (handshakeMsg m))) 7 (.start (.fresh allVersions))
        handshakeChunks = some r ∧
      r.phase = .recv ∧ r.dp.state = .config ∧ r.dp.id = some 5 ∧
      r.dp.sent = [.featuresRequest, .portDescStatsRequest 0] := by
  have hwait : (Recv.start (Datapath.fresh allVersions)).Waiting [hello13, features13] :=
    ⟨rfl, .inl rfl, List.nil_prefix, by decide⟩
  obtain ⟨r, hfeed, hr⟩ := @feed_ofpApp (fun _ _ m => some (.ok (handshakeMsg m))) _ handshakeMsg _
    hwait rfl (by decide) (by simp; exact ⟨rfl, rfl⟩) handshakeChunks
    (by simp [Chunked, handshakeChunks, hello13, features13, zeros]) (by decide) 7 (by decide)
  refine ⟨r, hfeed, ?_⟩
  rcases hr with ⟨hphase, hdp⟩ | ⟨e, -, hdead⟩
  · rw [hphase, hdp]
    decide +kernel
  · exact absurd hdead (by decide +kernel)

end BebaCtrl
