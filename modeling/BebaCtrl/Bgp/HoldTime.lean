import BebaCtrl.Bgp.Session

/-!
# The hold time of a session

An OPEN message carries the hold time of its sender. When the message is accepted, the smaller of
both hold times is to be used, a KEEPALIVE answers the message, and further ones follow at a third
of the hold time. A hold time of 0 of the peer is a case of its own; no other value is looked at.

The timers belong to a connection. When they fire, and that they are stopped with the connection, is
left out.
-/

namespace BebaCtrl.Bgp.Session

open Function Option

inductive SentMsg where
  | bgpOpen (holdTime : Nat)
  | keepAlive
  deriving DecidableEq, Repr

/-- The hold time and the intervals of the timers that run, and what was sent on the connection. -/
structure Timers where
  holdtime : Nat := 0
  keepalive : Option Nat := none
  expiry : Option Nat := none
  sent : List SentMsg := []
  deriving DecidableEq, Repr

namespace Timers

/-- `connection_made`, which sends the OPEN message. -/
def made (holdTime : Nat) : Timers := { holdtime := holdTime, sent := [.bgpOpen holdTime] }

def startTimers (peerHoldtime : Nat) (t : Timers) : Timers :=
  let negTimer := min t.holdtime peerHoldtime
  { t with holdtime := negTimer, keepalive := some (negTimer / 3), expiry := some negTimer }

def sendKeepalive (t : Timers) : Timers := { t with sent := t.sent ++ [.keepAlive] }

/-- What follows when the connection could be bound. -/
def answerOpen (holdTime : Nat) (t : Timers) : Timers :=
  if holdTime = 0 then t else (t.startTimers holdTime).sendKeepalive

end Timers

/-- An event, with the hold time if it is an OPEN message. -/
abbrev TimedEvent := Event × Nat

variable (cfg : PeerConfig) (configured : Nat)

/-- The timers after an event, from the state and the timers before it. -/
def timersStep (s : State) (timers : Nat → Timers) : TimedEvent → Nat → Timers
  | (.connectionMade c, _) =>
    match s.protocols c with
    | some p =>
      if p.state = .connect ∧ p.socketOpen then
        Function.update timers c (.made configured) else timers
    | none => timers
  | (.receive c (.bgpOpen msg), holdTime) =>
    match receiving c s with
    | some p =>
      match (handleOpen cfg c p msg s).1 with
      | .ok _ => Function.update timers c ((timers c).answerOpen holdTime)
      | .error _ => timers
    | none => timers
  | _ => timers

def timedRun (events : List TimedEvent) : State × (Nat → Timers) :=
  events.foldl (fun r event => (step cfg r.1 event.1, timersStep cfg configured r.1 r.2 event))
    ({}, fun _ => {})

/-- A KEEPALIVE is sent, and either there is no hold time and no timer, or the hold time is the
smaller one, of at least 3 seconds, and KEEPALIVEs follow at an interval of at least a second and at
most a third of it. -/
def Negotiates (holdTime : Nat) (t t' : Timers) : Prop :=
  t'.sent = t.sent ++ [.keepAlive] ∧
    (min configured holdTime = 0 ∧ t'.keepalive = none ∧ t'.expiry = none ∨
      t'.holdtime = min configured holdTime ∧ 3 ≤ t'.holdtime ∧ t'.expiry = some t'.holdtime ∧
        ∃ interval, t'.keepalive = some interval ∧ 1 ≤ interval ∧ 3 * interval ≤ t'.holdtime)

theorem negotiates_answerOpen_iff (holdTime : Nat) :
    Negotiates configured holdTime (.made configured)
      ((Timers.made configured).answerOpen holdTime) ↔ 3 ≤ configured ∧ 3 ≤ holdTime := by
  unfold Timers.answerOpen
  split
  · rename_i hzero
    simp [Negotiates, hzero]
  · simp [Negotiates, Timers.made, Timers.startTimers, Timers.sendKeepalive]
    omega

/-! ## Connections that wait for an OPEN -/

/-- No connection comes into the state in which it waits for an OPEN. -/
def OpensNone (s s' : State) : Prop :=
  ∀ c p', s'.protocols c = some p' → p'.state = .openSent →
    ∃ p, s.protocols c = some p ∧ p.state = .openSent

variable {cfg configured} {s s' s'' : State}

theorem OpensNone.refl (s : State) : OpensNone s s := fun _ p hp hstate => ⟨p, hp, hstate⟩

theorem OpensNone.trans (h : OpensNone s s') (h' : OpensNone s' s'') : OpensNone s s'' := by
  intro c p'' hp'' hstate''
  obtain ⟨p', hp', hstate'⟩ := h' c p'' hp'' hstate''
  exact h c p' hp' hstate'

theorem OpensNone.of_eq (h : s'.protocols = s.protocols) : OpensNone s s' := by
  intro c p hp hstate
  exact ⟨p, h ▸ hp, hstate⟩

theorem modifyProtocol_protocols_of_ne {c d : Nat} (hd : d ≠ c) (f : Protocol → Protocol)
    (s : State) : (modifyProtocol c f s).protocols d = s.protocols d :=
  update_of_ne hd ..

theorem opensNone_modifyProtocol {c : Nat} {f : Protocol → Protocol} (s : State)
    (hf : ∀ p, (f p).state = .openSent → p.state = .openSent) :
    OpensNone s (modifyProtocol c f s) := by
  intro d p' hp' hstate
  simp only [modifyProtocol, update_apply] at hp'
  split_ifs at hp' with hd
  · obtain ⟨p, hp, rfl⟩ := map_eq_some_iff.1 hp'
    exact ⟨p, hd ▸ hp, hf p hstate⟩
  · exact ⟨p', hp', hstate⟩

theorem opensNone_stop (c : Nat) (s : State) : OpensNone s (stop c s) :=
  opensNone_modifyProtocol s fun _ h => h

theorem opensNone_connectionLost (c : Nat) (s : State) : OpensNone s (connectionLost c s) := by
  have hpeer : OpensNone s (peerConnectionLost s) := by
    unfold peerConnectionLost
    cases s.protocol with
    | none => exact .of_eq rfl
    | some b => exact (opensNone_stop b s).trans (.of_eq rfl)
  unfold connectionLost
  cases s.protocols c with
  | none => exact .refl s
  | some p =>
    dsimp only
    split
    · refine OpensNone.trans ?_ (opensNone_modifyProtocol _ fun _ h => h)
      split
      · exact hpeer
      · exact .refl s
    · exact .refl s

theorem opensNone_bindProtocol (c : Nat) (s : State) : OpensNone s (bindProtocol c s).2 := by
  unfold bindProtocol
  cases s.protocol with
  | none => exact .of_eq rfl
  | some b =>
    dsimp only
    split
    · exact opensNone_stop c s
    · exact .refl s

theorem opensNone_handleOpen (c : Nat) (p : Protocol) (msg : OpenMsg) (s : State) :
    OpensNone s (handleOpen cfg c p msg s).2 := by
  unfold handleOpen
  split
  · cases validateOpenMsg cfg msg with
    | error e => exact .refl s
    | ok =>
      have hconfirm :
          OpensNone s { modifyProtocol c (fun p => { p with state := .openConfirm }) s with
          bgpState := .openConfirm } :=
        (opensNone_modifyProtocol s (by simp)).trans (.of_eq rfl)
      have hbind := hconfirm.trans (opensNone_bindProtocol c _)
      dsimp only
      split
      · rename_i e s' heq
        rwa [heq] at hbind
      · rename_i isBound s' heq
        rw [heq] at hbind
        exact hbind.trans (opensNone_modifyProtocol _ fun _ h => h)
  · exact .refl s

theorem opensNone_handleMsg (c : Nat) (p : Protocol) (msg : Msg) (s : State) :
    OpensNone s (handleMsg cfg c p msg s).2 := by
  cases msg with
  | bgpOpen msg => exact opensNone_handleOpen c p msg s
  | notification => exact opensNone_stop c s
  | keepAlive =>
    simp only [handleMsg]
    split <;> exact .of_eq rfl
  | update => exact .refl s
  | routeRefresh => exact .refl s

theorem opensNone_receive (c : Nat) (msg : Msg) (s : State) :
    OpensNone s (receive cfg c msg s) := by
  unfold receive
  cases receiving c s with
  | none => exact .refl s
  | some p =>
    have hmsg : OpensNone s (handleMsg cfg c p msg s).2 := opensNone_handleMsg c p msg s
    dsimp only
    split
    · rename_i s' heq
      rwa [heq] at hmsg
    · rename_i s' heq
      rw [heq] at hmsg
      exact hmsg.trans (opensNone_connectionLost c s')

/-- Only `connection_made` sends an OPEN. -/
theorem opensNone_step {event : Event} (h : ∀ c, event ≠ .connectionMade c) (s : State) :
    OpensNone s (step cfg s event) := by
  cases event with
  | connectionMade c => exact absurd rfl (h c)
  | startProtocol c isReactive =>
    intro d p' hp' hstate
    simp only [step, startProtocol] at hp'
    split_ifs at hp' <;> try exact ⟨p', hp', hstate⟩
    -- the new connection has not sent its OPEN yet
    grind [update_apply]
  | receive c msg => exact opensNone_receive c msg s
  | connectionLost c => exact opensNone_connectionLost c s
  | connectStart =>
    simp only [step]
    split <;> exact .of_eq rfl
  | connectFail =>
    simp only [step]
    split <;> exact .of_eq rfl

/-- An OPEN that is accepted ends the wait of its connection. -/
theorem state_of_handleOpen {c : Nat} {p p' : Protocol} {msg : OpenMsg}
    (hok : (handleOpen cfg c p msg s).1 = .ok ())
    (hp' : (handleOpen cfg c p msg s).2.protocols c = some p') : p'.state = .openConfirm := by
  unfold handleOpen at hok hp'
  split at hok
  · rename_i hstate
    rw [if_pos hstate] at hp'
    cases hvalid : validateOpenMsg cfg msg with
    | error e => simp [hvalid] at hok
    | ok =>
      cases hb : s.protocol with
      | none =>
        simp only [hvalid, bindProtocol, modifyProtocol_protocol, hb,
          modifyProtocol_protocols_self, map_map, map_eq_some_iff] at hp'
        obtain ⟨q, -, rfl⟩ := hp'
        rfl
      | some b =>
        simp [hvalid, bindProtocol, hb] at hok
  · cases hok

/-- The timers of the connections that wait for an OPEN are those of `connection_made`. -/
def Fresh (configured : Nat) (r : State × (Nat → Timers)) : Prop :=
  ∀ c p, r.1.protocols c = some p → p.state = .openSent → r.2 c = .made configured

theorem Fresh.of_opensNone {timers timers' : Nat → Timers} (h : Fresh configured (s, timers))
    (hopens : OpensNone s s') (htimers : ∀ c p, s'.protocols c = some p → p.state = .openSent →
      timers' c = timers c) : Fresh configured (s', timers') := by
  intro c p' hp' hstate'
  obtain ⟨p, hp, hstate⟩ := hopens c p' hp' hstate'
  exact (htimers c p' hp' hstate').trans (h c p hp hstate)

variable {timers : Nat → Timers}

theorem Fresh.connectionMade (h : Fresh configured (s, timers)) (c holdTime : Nat) :
    Fresh configured
      (Session.connectionMade c s,
        timersStep cfg configured s timers (.connectionMade c, holdTime)) := by
  cases hc : s.protocols c with
  | none => simpa only [Session.connectionMade, timersStep, hc] using h
  | some p =>
    by_cases hmade : p.state = .connect ∧ p.socketOpen
    · simp only [Session.connectionMade, timersStep, hc, if_pos hmade]
      intro d q hq hstate
      by_cases hd : d = c
      · subst hd
        exact update_self ..
      · have hq : s.protocols d = some q := by
          split at hq <;> rwa [modifyProtocol_protocols_of_ne hd] at hq
        exact (update_of_ne hd ..).trans (h d q hq hstate)
    · simpa only [Session.connectionMade, timersStep, hc, if_neg hmade] using h

theorem Fresh.receive_open (h : Fresh configured (s, timers)) (c : Nat) (msg : OpenMsg)
    (holdTime : Nat) :
    Fresh configured (receive cfg c (.bgpOpen msg) s,
      timersStep cfg configured s timers (.receive c (.bgpOpen msg), holdTime)) := by
  refine h.of_opensNone (opensNone_receive c _ s) fun d q hq hstate => ?_
  cases hp : receiving c s with
  | none => simp only [timersStep, hp]
  | some p =>
    cases hok : (handleOpen cfg c p msg s).1 with
    | error e => simp only [timersStep, hp, hok]
    | ok =>
      simp only [timersStep, hp, hok]
      refine update_of_ne ?_ ..
      rintro rfl
      have hopen : receive cfg d (.bgpOpen msg) s = (handleOpen cfg d p msg s).2 := by
        simp only [receive, hp, handleMsg]
        split <;> simp_all
      rw [hopen] at hq
      rw [state_of_handleOpen hok hq] at hstate
      cases hstate

theorem Fresh.step (h : Fresh configured (s, timers)) (event : TimedEvent) :
    Fresh configured (step cfg s event.1, timersStep cfg configured s timers event) := by
  obtain ⟨event, holdTime⟩ := event
  cases event with
  | connectionMade c => exact h.connectionMade c holdTime
  | receive c msg =>
    cases msg with
    | bgpOpen msg => exact h.receive_open c msg holdTime
    | _ => exact h.of_opensNone (opensNone_step (by simp) s) fun _ _ _ _ => rfl
  | _ => exact h.of_opensNone (opensNone_step (by simp) s) fun _ _ _ _ => rfl

theorem timedRun_concat (events : List TimedEvent) (event : TimedEvent) :
    timedRun cfg configured (events ++ [event]) =
      (step cfg (timedRun cfg configured events).1 event.1,
        timersStep cfg configured (timedRun cfg configured events).1
          (timedRun cfg configured events).2 event) := by
  rw [timedRun, List.foldl_concat]
  rfl

theorem fresh_timedRun (cfg : PeerConfig) (configured : Nat) (events : List TimedEvent) :
    Fresh configured (timedRun cfg configured events) := by
  induction events using List.reverseRecOn with
  | nil =>
    intro c p hp
    cases hp
  | append_singleton events event ih =>
    rw [timedRun_concat]
    exact ih.step event

/-- An OPEN that is accepted leads to a proper hold time if both sides want at least 3 seconds. -/
theorem negotiates_iff (cfg : PeerConfig) (configured : Nat) (events : List TimedEvent) (c : Nat)
    (p : Protocol) (msg : OpenMsg) (holdTime : Nat)
    (hp : receiving c (timedRun cfg configured events).1 = some p) (hstate : p.state = .openSent)
    (hok : (handleMsg cfg c p (.bgpOpen msg) (timedRun cfg configured events).1).1 = .ok ()) :
    Negotiates configured holdTime ((timedRun cfg configured events).2 c)
        ((timedRun cfg configured (events ++ [(.receive c (.bgpOpen msg), holdTime)])).2 c) ↔
      3 ≤ configured ∧ 3 ≤ holdTime := by
  have hmade := fresh_timedRun cfg configured events c p (receiving_eq_some hp).1 hstate
  have hanswer : (timedRun cfg configured (events ++ [(.receive c (.bgpOpen msg), holdTime)])).2 c =
      ((timedRun cfg configured events).2 c).answerOpen holdTime := by
    have hok : (handleOpen cfg c p msg (timedRun cfg configured events).1).1 = .ok () := hok
    simp only [timedRun_concat, timersStep, hp, hok, update_self]
  rw [hanswer, hmade]
  exact negotiates_answerOpen_iff configured holdTime

/-- A connection to the AS 65001 that has sent its OPEN message. -/
def openSentEvents : List TimedEvent := [(.startProtocol 0 false, 0), (.connectionMade 0, 0)]

theorem negotiates_forty_ninety :
    Negotiates 40 90 (.made 40)
      ((timedRun { remoteAs := 65001 } 40
        (openSentEvents ++ [(.receive 0 (.bgpOpen ⟨4, 65001⟩), 90)])).2 0) :=
  (negotiates_iff { remoteAs := 65001 } 40 openSentEvents 0
    ⟨false, .openSent, false, true, true⟩ ⟨4, 65001⟩ 90 rfl rfl rfl).2 ⟨by decide, by decide⟩

/-- With the hold time 0 of the peer no KEEPALIVE is sent; with 1 the hold timer runs for a second
and the other one with the interval 0. -/
theorem not_negotiates_zero_one :
    (timedRun { remoteAs := 65001 } 40
      (openSentEvents ++ [(.receive 0 (.bgpOpen ⟨4, 65001⟩), 0)])).2 0 = .made 40 ∧
    ¬Negotiates 40 0 (.made 40) ((timedRun { remoteAs := 65001 } 40
      (openSentEvents ++ [(.receive 0 (.bgpOpen ⟨4, 65001⟩), 0)])).2 0) ∧
    (timedRun { remoteAs := 65001 } 40
      (openSentEvents ++ [(.receive 0 (.bgpOpen ⟨4, 65001⟩), 1)])).2 0 =
        ⟨1, some 0, some 1, [.bgpOpen 40, .keepAlive]⟩ ∧
    ¬Negotiates 40 1 (.made 40) ((timedRun { remoteAs := 65001 } 40
      (openSentEvents ++ [(.receive 0 (.bgpOpen ⟨4, 65001⟩), 1)])).2 0) := by
  refine ⟨rfl, fun h => ?_, rfl, fun h => ?_⟩
  · have hsent := h.1
    cases hsent
  · obtain ⟨-, ⟨hmin, -⟩ | ⟨-, hthree, -⟩⟩ := h
    · cases hmin
    · exact absurd hthree (by decide)

end BebaCtrl.Bgp.Session
