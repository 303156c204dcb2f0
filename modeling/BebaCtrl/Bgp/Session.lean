import BebaCtrl.Bgp.Exceptions
import BebaCtrl.Lib.History

/-!
# Sessions and connection collisions

The state of the finite state machine belongs to the peer, and the handlers of all connections with
the peer read and write it. One connection at a time is bound to the peer, by its OPEN message.

A step is what the thread of one connection does with one message. The times at which the connect
loop tries again are left open.
-/

namespace BebaCtrl.Bgp.Session

open List Function Option

inductive FsmState where
  | idle
  | connect
  | active
  | openSent
  | openConfirm
  | established
  deriving DecidableEq, Repr

/-- The fields of an OPEN message that are validated. -/
structure OpenMsg where
  version : Nat
  myAs : Nat
  deriving DecidableEq, Repr

inductive Msg where
  | bgpOpen (msg : OpenMsg)
  | keepAlive
  | update
  | routeRefresh
  | notification
  deriving DecidableEq, Repr

/-- A connection. -/
structure Protocol where
  isReactive : Bool
  state : FsmState := .connect
  isBound : Bool := false
  /-- is `_peer` set? -/
  hasPeer : Bool := false
  socketOpen : Bool := true
  deriving DecidableEq, Repr

structure PeerConfig where
  remoteAs : Nat
  enabled : Bool := true
  /-- is `connect_mode` `CONNECT_MODE_ACTIVE`? -/
  connectModeActive : Bool := false

/-- The peer and its connections, which have numbers. -/
structure State where
  bgpState : FsmState := .idle
  protocol : Option Nat := none
  /-- does the connect loop wait for a connection? -/
  connecting : Bool := false
  protocols : Nat → Option Protocol := fun _ => none

variable (cfg : PeerConfig)

def modifyProtocol (c : Nat) (f : Protocol → Protocol) (s : State) : State :=
  { s with protocols := Function.update s.protocols c ((s.protocols c).map f) }

def stop (c : Nat) : State → State := modifyProtocol c fun p => { p with socketOpen := false }

/-! ## Connections -/

def startProtocol (c : Nat) (isReactive : Bool) (s : State) : State :=
  -- a connection that the connect loop waited for has come
  let s := { s with connecting := s.connecting && isReactive }
  if s.protocols c ≠ none then s
  else if !cfg.enabled then s
  else if isReactive && cfg.connectModeActive then s
  else if s.bgpState = .idle ∨ s.bgpState = .active ∨ s.bgpState = .connect then
    { s with protocols := Function.update s.protocols c (some { isReactive }) }
  else s

/-- The thread of the connection starts and sends the OPEN message. -/
def connectionMade (c : Nat) (s : State) : State :=
  match s.protocols c with
  | some p =>
    if p.state = .connect ∧ p.socketOpen then
      let s := modifyProtocol c (fun p => { p with state := .openSent, hasPeer := true }) s
      if p.isReactive then s else { s with bgpState := .openSent }
    else s
  | none => s

/-- `Peer.connection_lost` -/
def peerConnectionLost (s : State) : State :=
  match s.protocol with
  | some b => { stop b s with bgpState := .idle, protocol := none }
  | none => { s with bgpState := .idle }

/-- `BgpProtocol.connection_lost`, also when the hold timer expires. -/
def connectionLost (c : Nat) (s : State) : State :=
  match s.protocols c with
  | some p =>
    if p.hasPeer then
      let s := if p.isBound ∨ s.bgpState = .openSent then peerConnectionLost s else s
      modifyProtocol c (fun p => { p with hasPeer := false, socketOpen := false }) s
    else s
  | none => s

/-! ## Messages -/

def validateOpenMsg (msg : OpenMsg) : Except Raised Unit :=
  if msg.myAs > 65535 ∨ msg.myAs ≠ cfg.remoteAs then .error (.bgpExc .badPeerAs)
  else if msg.version ≠ 4 then .error (.bgpExc (.unsupportedVersion 4))
  else .ok ()

/-- Collisions are never compared: `is_colliding` reads a name that is not defined, and before it is
called there is a check for a state that the caller has just left. -/
def bindProtocol (c : Nat) (s : State) : Except Raised Bool × State :=
  match s.protocol with
  | none => (.ok true, { s with protocol := some c })
  | some _ =>
    if s.bgpState ≠ .idle then (.ok false, stop c s)
    else (.error (.pyErr (.other "NameError")), s)

def handleOpen (c : Nat) (p : Protocol) (msg : OpenMsg) (s : State) : Except Raised Unit × State :=
  if p.state = .openSent then
    match validateOpenMsg cfg msg with
    | .error e => (.error e, s)
    | .ok _ =>
      let s := modifyProtocol c (fun p => { p with state := .openConfirm }) s
      match bindProtocol c { s with bgpState := .openConfirm } with
      | (.error e, s) => (.error e, s)
      | (.ok isBound, s) =>
        (if isBound then .ok () else .error (.bgpExc .collisionResolution),
          modifyProtocol c (fun p => { p with isBound }) s)
  else (.error (.bgpExc .finiteStateMachineError), s)

/-- `_handle_msg`, with `Peer.handle_msg`. What the peer does with an UPDATE does not change the
state of the session. -/
def handleMsg (c : Nat) (p : Protocol) (msg : Msg) (s : State) : Except Raised Unit × State :=
  match msg with
  | .bgpOpen msg => handleOpen cfg c p msg s
  | .notification => (.ok (), stop c s)
  | .keepAlive =>
    (.ok (), if s.bgpState = .openConfirm then { s with bgpState := .established } else s)
  | .update | .routeRefresh =>
    (if s.bgpState = .established then .ok () else .error (.pyErr .assertionError), s)

/-- The connection, if messages can come on it. -/
def receiving (c : Nat) (s : State) : Option Protocol :=
  (s.protocols c).filter fun p => p.hasPeer && p.socketOpen

/-- A message on a connection; an exception ends the connection. -/
def receive (c : Nat) (msg : Msg) (s : State) : State :=
  match receiving c s with
  | none => s
  | some p =>
    match handleMsg cfg c p msg s with
    | (.ok _, s) => s
    | (.error _, s) => connectionLost c s

/-! ## Runs -/

inductive Event where
  | startProtocol (c : Nat) (isReactive : Bool)
  | connectionMade (c : Nat)
  | receive (c : Nat) (msg : Msg)
  | connectionLost (c : Nat)
  /-- An iteration of the connect loop starts, or fails to connect. -/
  | connectStart
  | connectFail
  deriving DecidableEq, Repr

def step (s : State) : Event → State
  | .startProtocol c isReactive => startProtocol cfg c isReactive s
  | .connectionMade c => connectionMade c s
  | .receive c msg => receive cfg c msg s
  | .connectionLost c => connectionLost c s
  | .connectStart =>
    if s.bgpState = .idle ∨ s.bgpState = .active then
      { s with bgpState := .connect, connecting := true }
    else s
  | .connectFail =>
    if s.connecting then { s with bgpState := .active, connecting := false } else s

def run (events : List Event) : State := events.foldl (step cfg) {}

/-- The messages that came on each connection. -/
def receivedStep (s : State) (log : Nat → List Msg) : Event → Nat → List Msg
  | .receive c msg => if (receiving c s).isSome then Function.update log c (log c ++ [msg]) else log
  | _ => log

def received (events : List Event) : Nat → List Msg :=
  (events.foldl (fun r event => (step cfg r.1 event, receivedStep r.1 r.2 event))
    ({}, fun _ => [])).2

def Acceptable (msg : OpenMsg) : Prop := validateOpenMsg cfg msg = .ok ()

/-- An acceptable OPEN came. -/
def Opened (msgs : List Msg) : Prop := ∃ msg, Acceptable cfg msg ∧ .bgpOpen msg ∈ msgs

/-- An acceptable OPEN came and then a KEEPALIVE. -/
def Handshake (msgs : List Msg) : Prop :=
  ∃ before after, msgs = before ++ .keepAlive :: after ∧ Opened cfg before

/-- An event that does what a session may do. -/
structure Proper (before : List Event) (event : Event) : Prop where
  /-- The state becomes established only with the handshake on the bound connection. -/
  established : (run cfg before).bgpState ≠ .established →
    (run cfg (before ++ [event])).bgpState = .established →
    ∃ b, (run cfg (before ++ [event])).protocol = some b ∧
      Handshake cfg (received cfg (before ++ [event]) b)
  /-- UPDATE messages are handled only on the bound and established connection. -/
  update : ∀ c p, event = .receive c .update → receiving c (run cfg before) = some p →
    (handleMsg cfg c p .update (run cfg before)).1 = .ok () →
    (run cfg before).protocol = some c ∧ (run cfg before).bgpState = .established ∧
      Handshake cfg (received cfg before c)
  /-- A connection that loses the collision resolution changes nothing of the peer. -/
  collision : ∀ c p msg, event = .receive c msg → receiving c (run cfg before) = some p →
    (handleMsg cfg c p msg (run cfg before)).1 = .error (.bgpExc .collisionResolution) →
    (run cfg (before ++ [event])).bgpState = (run cfg before).bgpState ∧
      (run cfg (before ++ [event])).protocol = (run cfg before).protocol

/-- A KEEPALIVE that confirms comes on the bound connection, unless that one had one before; an
UPDATE in the established state comes on the bound connection; and an acceptable OPEN while another
connection is bound comes in the state that it sets. -/
def Safe (s : State) (log : Nat → List Msg) : Event → Prop
  | .receive c msg => ∀ p, receiving c s = some p →
    match msg with
    | .keepAlive => s.bgpState = .openConfirm → ∀ b, s.protocol = some b →
      b = c ∨ Handshake cfg (log b)
    | .update => s.bgpState = .established → s.protocol = some c
    | .bgpOpen msg => p.state = .openSent → Acceptable cfg msg → s.protocol.isSome →
      s.bgpState = .openConfirm
    | _ => True
  | _ => True

/-! ## What a step does to the peer -/

section

variable (c : Nat) (f : Protocol → Protocol) (s : State)

@[simp] theorem modifyProtocol_bgpState : (modifyProtocol c f s).bgpState = s.bgpState := rfl

@[simp] theorem modifyProtocol_protocol : (modifyProtocol c f s).protocol = s.protocol := rfl

@[simp] theorem modifyProtocol_protocols_self :
    (modifyProtocol c f s).protocols c = (s.protocols c).map f :=
  update_self ..

end

@[simp] theorem stop_bgpState (c : Nat) (s : State) : (stop c s).bgpState = s.bgpState := rfl

@[simp] theorem stop_protocol (c : Nat) (s : State) : (stop c s).protocol = s.protocol := rfl

variable {cfg} {c : Nat} {s : State} {p : Protocol}

theorem receiving_eq_some (h : receiving c s = some p) :
    s.protocols c = some p ∧ p.hasPeer = true := by
  rw [receiving, filter_eq_some_iff] at h
  simp only [Bool.and_eq_true] at h
  exact ⟨h.1, h.2.1⟩

/-- The state and the bound connection stay as they are, or the session ends. -/
theorem connectionLost_cases (c : Nat) (s : State) :
    (connectionLost c s).bgpState = s.bgpState ∧ (connectionLost c s).protocol = s.protocol ∨
      (connectionLost c s).bgpState = .idle ∧ (connectionLost c s).protocol = none := by
  unfold connectionLost
  cases s.protocols c with
  | none => exact .inl ⟨rfl, rfl⟩
  | some p =>
    dsimp only
    split
    · split
      · rw [modifyProtocol_bgpState, modifyProtocol_protocol, peerConnectionLost]
        cases s.protocol <;> simp
      · exact .inl ⟨rfl, rfl⟩
    · exact .inl ⟨rfl, rfl⟩

/-- A connection that is not bound ends without the peer, except in the state after the OPEN is
sent. -/
theorem connectionLost_of_not_isBound {c : Nat} {s : State} {p : Protocol}
    (hp : s.protocols c = some p) (hbound : p.isBound = false) (hs : s.bgpState ≠ .openSent) :
    (connectionLost c s).bgpState = s.bgpState ∧ (connectionLost c s).protocol = s.protocol := by
  unfold connectionLost
  rw [hp]
  dsimp only
  split
  · rw [if_neg (by simp [hbound, hs])]
    exact ⟨rfl, rfl⟩
  · exact ⟨rfl, rfl⟩

/-- The effect of an acceptable OPEN, which sets the state whether it can bind or not. -/
theorem receive_open {msg : OpenMsg} (hp : receiving c s = some p) (hstate : p.state = .openSent)
    (hmsg : Acceptable cfg msg) :
    (receive cfg c (.bgpOpen msg) s).bgpState = .openConfirm ∧
      (receive cfg c (.bgpOpen msg) s).protocol = some (s.protocol.getD c) ∧
      (handleMsg cfg c p (.bgpOpen msg) s).1 =
        if s.protocol.isSome then .error (.bgpExc .collisionResolution) else .ok () := by
  have hmsg : validateOpenMsg cfg msg = .ok () := hmsg
  cases hb : s.protocol with
  | none => simp [receive, hp, handleMsg, handleOpen, hstate, hmsg, bindProtocol, hb]
  | some b =>
    have hc := (receiving_eq_some hp).1
    -- the connection that loses is not bound, so its end does not reach the peer
    have hlost := @connectionLost_of_not_isBound c
      (modifyProtocol c (fun p => { p with isBound := false }) (stop c
        { modifyProtocol c (fun p => { p with state := .openConfirm }) s with
          bgpState := .openConfirm }))
      { p with state := .openConfirm, socketOpen := false, isBound := false }
      (by simp [stop, modifyProtocol, hc]) rfl (by simp)
    simp only [receive, hp, handleMsg, handleOpen, hstate, if_true, hmsg, bindProtocol, hb,
      modifyProtocol_protocol]
    simpa [hb] using hlost

/-- What an event does to the state and the bound connection. -/
inductive Moves (cfg : PeerConfig) (s : State) : Event → State → Prop where
  | same {event s'} : s'.bgpState = s.bgpState → s'.protocol = s.protocol → Moves cfg s event s'
  | lost {event s'} : s'.bgpState = .idle → s'.protocol = none → Moves cfg s event s'
  | other {event s'} : s'.bgpState ≠ .openConfirm → s'.bgpState ≠ .established →
      s'.protocol = s.protocol → Moves cfg s event s'
  | opened {c msg p s'} : receiving c s = some p → p.state = .openSent → Acceptable cfg msg →
      s'.bgpState = .openConfirm → s'.protocol = some (s.protocol.getD c) →
      Moves cfg s (.receive c (.bgpOpen msg)) s'
  | confirmed {c p s'} : receiving c s = some p → s.bgpState = .openConfirm →
      s'.bgpState = .established → s'.protocol = s.protocol → Moves cfg s (.receive c .keepAlive) s'

variable {event : Event}

theorem moves_of_lost {s s' : State} (hs : s'.bgpState = s.bgpState ∧ s'.protocol = s.protocol) :
    Moves cfg s event (connectionLost c s') := by
  rcases connectionLost_cases c s' with h | h
  · exact .same (h.1.trans hs.1) (h.2.trans hs.2)
  · exact .lost h.1 h.2

theorem moves_receive (s : State) (c : Nat) (msg : Msg) :
    Moves cfg s (.receive c msg) (receive cfg c msg s) := by
  cases hp : receiving c s with
  | none => exact .same (by simp [receive, hp]) (by simp [receive, hp])
  | some p =>
    cases msg with
    | bgpOpen msg =>
      by_cases hopen : p.state = .openSent ∧ Acceptable cfg msg
      · obtain ⟨hstate, hprotocol, -⟩ := receive_open hp hopen.1 hopen.2
        exact .opened hp hopen.1 hopen.2 hstate hprotocol
      · have herror : ∃ e, handleMsg cfg c p (.bgpOpen msg) s = (.error e, s) := by
          simp only [handleMsg, handleOpen]
          split
          · rename_i hstate
            cases hmsg : validateOpenMsg cfg msg with
            | error e => exact ⟨e, rfl⟩
            | ok u => exact absurd ⟨hstate, hmsg⟩ hopen
          · exact ⟨_, rfl⟩
        obtain ⟨e, he⟩ := herror
        simp only [receive, hp, he]
        exact moves_of_lost ⟨rfl, rfl⟩
    | keepAlive =>
      simp only [receive, hp, handleMsg]
      by_cases hs : s.bgpState = .openConfirm
      · exact .confirmed hp hs (by simp [hs]) (by simp [hs])
      · exact .same (by simp [hs]) (by simp [hs])
    | notification =>
      simp only [receive, hp, handleMsg]
      exact .same rfl rfl
    | update | routeRefresh =>
      simp only [receive, hp, handleMsg]
      by_cases hs : s.bgpState = .established
      · simp only [hs, if_true]
        exact .same rfl rfl
      · simp only [hs, if_false]
        exact moves_of_lost ⟨rfl, rfl⟩

theorem moves_step (s : State) (event : Event) : Moves cfg s event (step cfg s event) := by
  cases event with
  | receive c msg => exact moves_receive s c msg
  | connectionLost c => exact moves_of_lost ⟨rfl, rfl⟩
  | startProtocol c isReactive =>
    refine .same ?_ ?_ <;>
    · simp only [step, startProtocol]
      repeat' split
      all_goals rfl
  | connectionMade c =>
    simp only [step, connectionMade]
    split
    · split
      · split
        · exact .same rfl rfl
        · exact .other (by simp) (by simp) rfl
      · exact .same rfl rfl
    · exact .same rfl rfl
  | connectStart | connectFail =>
    simp only [step]
    split
    · exact .other (by simp) (by simp) rfl
    · exact .same rfl rfl

/-- Only an acceptable OPEN can lose the collision resolution. -/
theorem handleMsg_collision {msg : Msg} (hp : receiving c s = some p)
    (h : (handleMsg cfg c p msg s).1 = .error (.bgpExc .collisionResolution)) :
    ∃ m, msg = .bgpOpen m ∧ p.state = .openSent ∧ Acceptable cfg m ∧ s.protocol.isSome := by
  cases msg with
  | bgpOpen m =>
    by_cases hopen : p.state = .openSent ∧ Acceptable cfg m
    · refine ⟨m, rfl, hopen.1, hopen.2, ?_⟩
      rw [(receive_open hp hopen.1 hopen.2).2.2] at h
      by_contra hnone
      rw [if_neg hnone] at h
      cases h
    · simp only [handleMsg, handleOpen] at h
      split at h
      · rename_i hstate
        unfold validateOpenMsg at h
        split at h
        · rename_i heq
          repeat' split at heq
          all_goals cases heq
          all_goals cases h
        · rename_i heq
          exact absurd ⟨hstate, heq⟩ hopen
      · cases h
  | keepAlive | notification => cases h
  | update | routeRefresh =>
    simp only [handleMsg] at h
    split at h <;> cases h

/-! ## Whole runs -/

theorem run_concat (events : List Event) (event : Event) :
    run cfg (events ++ [event]) = step cfg (run cfg events) event := by
  simp [run]

theorem received_concat (events : List Event) (event : Event) :
    received cfg (events ++ [event]) =
      receivedStep (run cfg events) (received cfg events) event := by
  have hfst : ∀ events : List Event, (events.foldl (fun r event =>
      (step cfg r.1 event, receivedStep r.1 r.2 event)) (({} : State), fun _ => [])).1 =
      run cfg events := by
    intro events
    induction events using reverseRecOn with
    | nil => rfl
    | append_singleton events event ih => rw [foldl_concat, run_concat, ih]
  rw [received, foldl_concat, hfst]
  rfl

/-- What came on a connection stays. -/
theorem receivedStep_prefix (s : State) (log : Nat → List Msg) (event : Event) (b : Nat) :
    log b <+: receivedStep s log event b := by
  cases event with
  | receive c msg =>
    simp only [receivedStep]
    split
    · rcases eq_or_ne b c with rfl | hne
      · rw [update_self]
        exact prefix_append ..
      · simp [update_of_ne hne]
    · exact prefix_rfl
  | _ => exact prefix_rfl

theorem receivedStep_receive (hp : receiving c s = some p) (log : Nat → List Msg) (msg : Msg) :
    receivedStep s log (.receive c msg) = Function.update log c (log c ++ [msg]) := by
  simp [receivedStep, hp]

theorem Opened.mono {msgs msgs' : List Msg} (h : Opened cfg msgs) (hpre : msgs <+: msgs') :
    Opened cfg msgs' := by
  obtain ⟨msg, hmsg, hmem⟩ := h
  exact ⟨msg, hmsg, hpre.subset hmem⟩

theorem Handshake.mono {msgs msgs' : List Msg} (h : Handshake cfg msgs) (hpre : msgs <+: msgs') :
    Handshake cfg msgs' := by
  obtain ⟨before, after, rfl, hopened⟩ := h
  obtain ⟨rest, rfl⟩ := hpre
  exact ⟨before, after ++ rest, by simp, hopened⟩

theorem Opened.handshake {msgs : List Msg} (h : Opened cfg msgs) :
    Handshake cfg (msgs ++ [.keepAlive]) :=
  ⟨msgs, [], rfl, h⟩

structure Inv (cfg : PeerConfig) (s : State) (log : Nat → List Msg) : Prop where
  bound : s.bgpState = .openConfirm ∨ s.bgpState = .established → s.protocol.isSome
  opened : ∀ b, s.protocol = some b → Opened cfg (log b)
  handshake : s.bgpState = .established → ∀ b, s.protocol = some b → Handshake cfg (log b)

theorem Inv.step {log : Nat → List Msg} (h : Inv cfg s log) (hsafe : Safe cfg s log event) :
    Inv cfg (step cfg s event) (receivedStep s log event) := by
  have hpre := receivedStep_prefix s log event
  have hmoves : Moves cfg s event (Session.step cfg s event) := moves_step s event
  -- the bound connection is the same, with the messages it had and perhaps one more
  have hsame : ∀ s' : State, s'.protocol = s.protocol →
      ∀ b, s'.protocol = some b → Opened cfg (receivedStep s log event b) :=
    fun s' hs' b hb => (h.opened b (hs' ▸ hb)).mono (hpre b)
  cases hmoves with
  | same hstate hprotocol =>
    refine ⟨?_, hsame _ hprotocol, ?_⟩
    · rw [hstate, hprotocol]
      exact h.bound
    · rw [hstate, hprotocol]
      exact fun hs b hb => (h.handshake hs b hb).mono (hpre b)
  | lost hstate hprotocol =>
    refine ⟨?_, ?_, ?_⟩
    · simp [hstate]
    · simp [hprotocol]
    · simp [hstate]
  | other hconfirm hestablished hprotocol =>
    refine ⟨?_, hsame _ hprotocol, fun hs => absurd hs hestablished⟩
    rintro (hs | hs)
    · exact absurd hs hconfirm
    · exact absurd hs hestablished
  | @opened c msg p _ hp hopen hmsg hstate hprotocol =>
    refine ⟨fun _ => by rw [hprotocol]; rfl, fun b hb => ?_, by simp [hstate]⟩
    rw [hprotocol, some.injEq] at hb
    cases hbound : s.protocol with
    | some b' =>
      rw [hbound, getD_some] at hb
      exact (h.opened b (hb ▸ hbound)).mono (hpre b)
    | none =>
      rw [hbound, getD_none] at hb
      subst hb
      rw [receivedStep_receive hp, update_self]
      exact ⟨msg, hmsg, by simp⟩
  | @confirmed c p _ hp hconfirm hstate hprotocol =>
    refine ⟨?_, hsame _ hprotocol, fun _ b hb => ?_⟩
    · rw [hprotocol]
      exact fun _ => h.bound (.inl hconfirm)
    · rw [hprotocol] at hb
      rcases hsafe p hp hconfirm b hb with rfl | hhandshake
      · rw [receivedStep_receive hp, update_self]
        exact (h.opened b hb).handshake
      · exact hhandshake.mono (hpre b)

/-- In every run, safe or not: from OpenConfirm on a connection is bound, and an acceptable OPEN
came on the bound connection. -/
theorem run_bound (events : List Event) :
    ((run cfg events).bgpState = .openConfirm ∨ (run cfg events).bgpState = .established →
      (run cfg events).protocol.isSome) ∧
    ∀ b, (run cfg events).protocol = some b → Opened cfg (received cfg events b) := by
  induction events using List.reverseRecOn with
  | nil => simp [run]
  | append_singleton events event ih =>
    obtain ⟨hbound, hopened⟩ := ih
    have hpre := receivedStep_prefix (run cfg events) (received cfg events) event
    have hkept := fun b hb => (hopened b hb).mono (hpre b)
    rw [run_concat, received_concat]
    cases @moves_step cfg (run cfg events) event with
    | same hstate hprotocol => exact ⟨by rwa [hstate, hprotocol], by rwa [hprotocol]⟩
    | lost hstate hprotocol => simp [hstate, hprotocol]
    | other hconfirm hestablished hprotocol => exact ⟨by simp [*], by rwa [hprotocol]⟩
    | @opened c msg p _ hp hopen hmsg hstate hprotocol =>
      refine ⟨by simp [hprotocol], fun b hb => ?_⟩
      cases hnone : (run cfg events).protocol with
      | some b' => grind
      | none =>
        obtain rfl : c = b := by simpa [hprotocol, hnone] using hb
        rw [receivedStep_receive hp, update_self]
        exact ⟨msg, hmsg, by simp⟩
    | confirmed hp hconfirm hstate hprotocol => exact ⟨by simp [*], by rwa [hprotocol]⟩

/-- Where the invariant holds, an event is proper exactly if it is safe. -/
theorem Inv.proper_iff {before : List Event} (h : Inv cfg (run cfg before) (received cfg before)) :
    Proper cfg before event ↔ Safe cfg (run cfg before) (received cfg before) event := by
  constructor
  · intro hproper
    cases event with
    | receive c msg =>
      intro p hp
      cases msg with
      | keepAlive =>
        intro hs b hb
        obtain ⟨b', hb', hhandshake⟩ := hproper.established (by simp [hs])
          (by simp [run_concat, Session.step, receive, hp, handleMsg, hs])
        have hbb : b' = b := by
          simpa [run_concat, Session.step, receive, hp, handleMsg, hs, hb, eq_comm] using hb'
        subst hbb
        rcases eq_or_ne b' c with rfl | hne
        · exact .inl rfl
        · rw [received_concat, receivedStep_receive hp, update_of_ne hne] at hhandshake
          exact .inr hhandshake
      | update =>
        intro hs
        exact (hproper.update c p rfl hp (by simp [handleMsg, hs])).1
      | bgpOpen msg =>
        intro hopen hmsg hbound
        obtain ⟨hstate, -, hresult⟩ := receive_open hp hopen hmsg
        rw [if_pos hbound] at hresult
        have hsame := (hproper.collision c p _ rfl hp hresult).1
        rw [run_concat] at hsame
        exact hsame.symm.trans hstate
      | routeRefresh | notification => trivial
    | _ => trivial
  · intro hsafe
    have hinv := h.step hsafe
    rw [← run_concat, ← received_concat] at hinv
    refine ⟨fun _ hs => ?_, ?_, ?_⟩
    · obtain ⟨b, hb⟩ := isSome_iff_exists.1 (hinv.bound (.inr hs))
      exact ⟨b, hb, hinv.handshake hs b hb⟩
    · rintro c p rfl hp hok
      have hs : (run cfg before).bgpState = .established := by
        by_contra hs
        simp [handleMsg, hs] at hok
      have hc := hsafe p hp hs
      exact ⟨hc, hs, h.handshake hs c hc⟩
    · rintro c p msg rfl hp hresult
      obtain ⟨m, rfl, hopen, hmsg, hbound⟩ := handleMsg_collision hp hresult
      obtain ⟨hstate, hprotocol, -⟩ := receive_open hp hopen hmsg
      obtain ⟨b, hb⟩ := isSome_iff_exists.1 hbound
      rw [run_concat]
      refine ⟨hstate.trans (hsafe p hp hopen hmsg hbound).symm, ?_⟩
      rw [hb] at hprotocol ⊢
      exact hprotocol

/-- In every run, all events are proper exactly if all of them are safe. -/
theorem proper_iff_safe (events : List Event) :
    (∀ before event after, events = before ++ event :: after → Proper cfg before event) ↔
    ∀ before event after, events = before ++ event :: after →
      Safe cfg (run cfg before) (received cfg before) event := by
  refine History.throughout_iff (fun before => Inv cfg (run cfg before) (received cfg before))
    ?_ (fun before event h => h.proper_iff) ?_ events
  · exact ⟨by simp [run], by simp [run], by simp [run]⟩
  · intro before event h hsafe
    rw [run_concat, received_concat]
    exact h.step hsafe

/-- Two connections from the neighbour: the OPEN comes on the first one, which gets bound, and the
KEEPALIVE on the second one. -/
theorem not_proper_keepAlive_unbound :
    ¬Proper { remoteAs := 65001 } [.startProtocol 0 true, .startProtocol 1 true, .connectionMade 0,
      .connectionMade 1, .receive 0 (.bgpOpen ⟨4, 65001⟩)] (.receive 1 .keepAlive) := by
  intro h
  obtain ⟨b, hb, before, after, hmsgs, -⟩ := h.established (by decide) (by decide)
  have hb0 : b = 0 := by simpa using hb.symm.trans (by decide : _ = some 0)
  subst hb0
  have hlog := hmsgs.symm.trans (by decide : _ = [Msg.bgpOpen ⟨4, 65001⟩])
  have hmem : Msg.keepAlive ∈ [Msg.bgpOpen ⟨4, 65001⟩] := hlog ▸ by simp
  simp at hmem

end BebaCtrl.Bgp.Session
