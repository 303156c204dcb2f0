import BebaCtrl.Topology.Switches

/-!
# When a switch is registered

`Switches` keeps a switch under its datapath id and removes it when a connection with that id dies,
whichever it is. So the switch is registered while one of its connections is alive only as long as
there is no more than one; and the death of a connection whose switch is not registered ends in an
exception, since `_get_switch` gives nothing then.
-/

namespace BebaCtrl.Switches

open History Presence List AList Dict State

/-- What an event says about the presence of a switch. -/
def presenceKind : Event → Option (Nat × Bool)
  | .switchEnter (some switch) => switch.dp.id.map (·, true)
  | .switchLeave (some switch) => switch.dp.id.map (·, false)
  | _ => none

/-- The connection has reached MAIN and has not died. -/
def Alive (events : List StateChange) (dp : Connection) : Prop :=
  Since (.main dp) (· ≠ .dead dp) events

/-- A connection of the switch is alive. -/
def Connected (events : List StateChange) (dpid : Nat) : Prop :=
  ∃ dp, dp.id = some dpid ∧ Alive events dp

variable {events : List StateChange} {dp dp' : Connection}

theorem alive_main :
    Alive (events ++ [.main dp']) dp ↔ dp' = dp ∨ Alive events dp := by
  rw [Alive, Alive, since_concat]
  grind

theorem alive_dead :
    Alive (events ++ [.dead dp']) dp ↔ dp' ≠ dp ∧ Alive events dp := by
  rw [Alive, Alive, since_concat]
  grind

/-- No connection of the switch but this one is alive. -/
def Last (events : List StateChange) (dpid : Nat) (dp : Connection) : Prop :=
  ∀ dp', dp'.id = some dpid → Alive events dp' → dp' = dp

section

variable (linkDiscovery : Bool)

/-- The state after a run of state changes only. -/
def runChanges (events : List StateChange) : State :=
  run linkDiscovery (events.map .stateChange)

/-- What one state change should do: it ends, the switches are registered that have a connection,
and the events of each datapath id alternate. -/
def Tracks (before : List StateChange) (event : StateChange) : Prop :=
  (stateChangeHandler linkDiscovery event (runChanges linkDiscovery before)).1 = .ok () ∧
  (∀ dpid, dpid ∈ (runChanges linkDiscovery (before ++ [event])).dps ↔
    Connected (before ++ [event]) dpid) ∧
  ∀ dpid, Alternates
    (marks presenceKind dpid (runChanges linkDiscovery (before ++ [event])).sent)

/-- The connection that dies is the only one of its switch; or, if no links are observed, there is
none. A connection that reaches MAIN has told its datapath id. -/
def OnlyConnection (before : List StateChange) : StateChange → Prop
  | .main dp => dp.id.isSome
  | .dead dp => ∀ dpid, dp.id = some dpid →
    Last before dpid dp ∧ (Alive before dp ∨ linkDiscovery = false)

structure Good (before : List StateChange) (s : State) : Prop where
  keys : s.SameKeys
  registered : ∀ dpid, dpid ∈ s.dps ↔ Connected before dpid
  alternates : ∀ dpid, Alternates (marks presenceKind dpid s.sent)
  present : ∀ dpid, present presenceKind dpid s.sent = true ↔ dpid ∈ s.dps
  /-- a switch with one connection is registered with that one, and with all its ports -/
  only : ∀ dpid dp, dp.id = some dpid → Alive before dp → Last before dpid dp →
    s.dps.lookup dpid = some dp ∧ (linkDiscovery = true → ∀ ports,
      s.portState.lookup dpid = some ports → ∀ p ∈ switchPorts dpid dp ports, p.id ∈ s.ports)

end

/-! ### The removal of ports -/

variable {s : State} {dpid : Nat} {dp : Connection} {k : PortId} {linkDiscovery : Bool}
  {before : List StateChange}

/-- What the removal of a port leaves alone. -/
theorem foldl_removePort_congr {α : Type} {f : State → α}
    (h : ∀ s port, f (State.removePort s port) = f s) (removed : List PortId) :
    f (removed.foldl State.removePort s) = f s := by
  induction removed generalizing s with
  | nil => rfl
  | cons p removed ih => exact ih.trans (h s p)

theorem foldl_removePort_dps (removed : List PortId) :
    (removed.foldl State.removePort s).dps = s.dps :=
  foldl_removePort_congr (f := State.dps) (fun _ _ => linkDown_dps) removed

theorem mem_foldl_removePort_ports {removed : List PortId} :
    k ∈ (removed.foldl State.removePort s).ports ↔ k ∉ removed ∧ k ∈ s.ports := by
  induction removed generalizing s with
  | nil => simp
  | cons p removed ih =>
    rw [foldl_cons, ih, State.removePort, mem_linkDown_ports, mem_erase]
    simp only [mem_cons, not_or]
    tauto

theorem marks_linkDown {port : PortId} :
    marks presenceKind dpid (s.linkDown port).sent = marks presenceKind dpid s.sent := by
  unfold linkDown
  split
  · rfl
  · split <;> simp [State.send, marks, mark, presenceKind]

/-! ### One state change -/

theorem Good.init : Good linkDiscovery [] {} where
  keys _ := by simp
  registered _ := iff_of_false (by simp) fun h => not_since_nil h.choose_spec.2
  alternates _ := by simp [Alternates, marks]
  present _ := by simp [Presence.present, marks]
  only _ _ _ h := absurd h not_since_nil

variable {k : Nat}

theorem connected_main (hid : dp.id = some dpid) :
    Connected (before ++ [.main dp]) k ↔ k = dpid ∨ Connected before k := by
  simp only [Connected, alive_main]
  grind

section

variable (h : Good linkDiscovery before s) (hid : dp.id = some dpid)
include h hid

/-- The other switches are not concerned by a new connection. -/
theorem Good.only_of_ne (hne : k ≠ dpid)
    (hid' : dp'.id = some k) (halive : Alive (before ++ [.main dp]) dp')
    (honly : ∀ dp₁, dp₁.id = some k → Alive (before ++ [.main dp]) dp₁ → dp₁ = dp') :
    s.dps.lookup k = some dp' ∧ (linkDiscovery = true → ∀ ports,
      s.portState.lookup k = some ports → ∀ p ∈ switchPorts k dp' ports, p.id ∈ s.ports) := by
  refine h.only k dp' hid' ?_ fun dp₁ hid₁ h₁ => honly dp₁ hid₁ (alive_main.2 (.inr h₁))
  rcases alive_main.1 halive with rfl | halive
  · exact absurd (Option.some.inj (hid'.symm.trans hid)) hne
  · exact halive

theorem Good.main_of_mem (hmem : dpid ∈ s.dps) :
    Good linkDiscovery (before ++ [.main dp]) { s with dps := s.dps.insert dpid dp } := by
  have hinsert : ∀ k, k ∈ s.dps.insert dpid dp ↔ k ∈ s.dps := by
    intro k
    rw [mem_insert]
    grind
  obtain ⟨dp₀, hid₀, halive₀⟩ := (h.registered dpid).1 hmem
  refine ⟨h.keys.insert_right hmem, fun k => ?_, h.alternates,
    fun k => (h.present k).trans (hinsert k).symm, fun k dp' hid' halive honly => ?_⟩
  · rw [hinsert, h.registered, connected_main hid]
    have := (h.registered dpid).1 hmem
    grind
  · by_cases hk : k = dpid
    · subst hk
      -- the switch had a connection, so the new one is that one
      obtain rfl := honly dp hid (alive_main.2 (.inl rfl))
      obtain rfl := honly dp₀ hid₀ (alive_main.2 (.inr halive₀))
      refine ⟨lookup_insert s.dps, ?_⟩
      exact (h.only k dp₀ hid₀ halive₀ fun dp₁ hid₁ h₁ =>
        honly dp₁ hid₁ (alive_main.2 (.inr h₁))).2
    · rw [lookup_insert_ne hk]
      exact h.only_of_ne hid hk hid' halive honly

theorem Good.main_of_notMem (hmem : dpid ∉ s.dps) :
    Good linkDiscovery (before ++ [.main dp]) (s.enter linkDiscovery dpid dp) := by
  have hpresent := h.present dpid
  refine ⟨h.keys.insert, fun k => ?_, fun k => ?_, fun k => ?_, fun k dp' hid' halive honly => ?_⟩
  · rw [enter, mem_insert, h.registered, connected_main hid]
  · rw [enter, alternates_marks_concat]
    refine ⟨h.alternates k, ?_⟩
    grind [mark, presenceKind]
  · rw [enter, present_concat, mem_insert]
    have := h.present k
    grind [mark, presenceKind]
  · by_cases hk : k = dpid
    · subst hk
      obtain rfl := honly dp hid (alive_main.2 (.inl rfl))
      refine ⟨lookup_insert s.dps, ?_⟩
      rintro rfl ports hports p hp
      obtain rfl := Option.some.inj ((lookup_insert s.portState).symm.trans hports)
      exact mem_foldl_addPort.2 (.inl (mem_map_of_mem hp))
    · obtain ⟨hlookup, hall⟩ := h.only_of_ne hid hk hid' halive honly
      refine ⟨(lookup_insert_ne hk).trans hlookup, fun hld ports hports p hp => ?_⟩
      have hp := hall hld ports ((lookup_insert_ne hk).symm.trans hports) p hp
      subst hld
      exact mem_foldl_addPort.2 (.inr hp)

theorem Good.main : ∃ s', mainHandler linkDiscovery dp dpid s = (.ok (), s') ∧
      Good linkDiscovery (before ++ [.main dp]) s' := by
  by_cases hmem : dpid ∈ s.dps
  · exact ⟨_, mainHandler_of_mem h.keys hid hmem, h.main_of_mem hid hmem⟩
  · exact ⟨_, mainHandler_of_notMem h.keys hid hmem, h.main_of_notMem hid hmem⟩

end

theorem connected_dead (hid : dp.id = some dpid) (hlast : Last before dpid dp) :
    Connected (before ++ [.dead dp]) k ↔ k ≠ dpid ∧ Connected before k := by
  simp only [Connected, alive_dead]
  unfold Last at hlast
  grind

/-- The switch leaves with its last connection: `ev` tells of it if it was there. -/
theorem Good.leave {s' : State} {ev : Event} (h : Good linkDiscovery before s)
    (hid : dp.id = some dpid) (hlast : Last before dpid dp) (hdps : s'.dps = s.dps.erase dpid)
    (hportState : s'.portState = s.portState.erase dpid)
    (hmarks : ∀ k, marks presenceKind k s'.sent = marks presenceKind k (s.sent ++ [ev]))
    (hev : ∀ k, mark presenceKind k ev = if k = dpid ∧ dpid ∈ s.dps then some false else none)
    (hports : ∀ k : PortId, k.dpid ≠ dpid → k ∈ s.ports → k ∈ s'.ports) :
    Good linkDiscovery (before ++ [.dead dp]) s' := by
  have hpresent := h.present dpid
  refine ⟨?_, fun k => ?_, fun k => ?_, fun k => ?_, fun k dp' hid' halive honly => ?_⟩
  · rw [State.SameKeys, hportState, hdps]
    exact h.keys.erase
  · rw [hdps, mem_erase, h.registered, connected_dead hid hlast]
  · rw [hmarks, alternates_marks_concat, hev]
    refine ⟨h.alternates k, ?_⟩
    grind
  · rw [Presence.present, hmarks, ← Presence.present, present_concat, hev, hdps, mem_erase]
    have := h.present k
    grind
  · rw [alive_dead] at halive
    have hk : k ≠ dpid := by
      rintro rfl
      exact halive.1 (hlast dp' hid' halive.2).symm
    obtain ⟨hlookup, hall⟩ := h.only k dp' hid' halive.2 fun dp₁ hid₁ h₁ =>
      honly dp₁ hid₁ (alive_dead.2 ⟨by rintro rfl; exact hk (by simp_all), h₁⟩)
    refine ⟨by rw [hdps, lookup_erase_ne hk, hlookup], fun hld ports hlook p hp => ?_⟩
    rw [hportState, lookup_erase_ne hk] at hlook
    exact hports p.id (by rwa [dpid_of_mem_switchPorts hp]) (hall hld ports hlook p hp)

theorem mark_switchLeave {switch : Switch} (hid : switch.dp.id = some dpid)
    (hmem : dpid ∈ s.dps) : mark presenceKind k (.switchLeave (some switch)) =
      if k = dpid ∧ dpid ∈ s.dps then some false else none := by
  simp [mark, presenceKind, hid, hmem, eq_comm]

theorem Good.dead_of_alive (h : Good linkDiscovery before s) (hid : dp.id = some dpid)
    (hlast : Last before dpid dp) (halive : Alive before dp) :
    ∃ s', deadHandler linkDiscovery dpid s = (.ok (), s') ∧
      Good linkDiscovery (before ++ [.dead dp]) s' := by
  obtain ⟨hlookup, hall⟩ := h.only dpid dp hid halive hlast
  have hmem : dpid ∈ s.dps := mem_of_lookup hlookup
  obtain ⟨ports, hports⟩ := mem_iff_lookup.1 ((h.keys dpid).2 hmem)
  rw [deadHandler_of_lookup h.keys hlookup hports]
  cases linkDiscovery with
  | false =>
    exact ⟨_, rfl, h.leave hid hlast rfl rfl (fun _ => rfl) (fun k => mark_switchLeave hid hmem)
      fun _ _ hk => hk⟩
  | true =>
    refine ⟨_, Prod.ext (if_pos (hall rfl ports hports)) rfl, ?_⟩
    refine h.leave hid hlast (foldl_removePort_dps _) (foldl_removePort_congr
      (f := State.portState) (fun _ _ => linkDown_portState) _) (fun k => foldl_removePort_congr
      (f := fun s => marks presenceKind k s.sent) (fun _ _ => marks_linkDown) _)
      (fun k => mark_switchLeave hid hmem) fun k hne hk => ?_
    refine mem_foldl_removePort_ports.2 ⟨fun hmem => hne ?_, hk⟩
    exact dpid_of_mem_leavingPorts hmem

/-- A switch without a connection is not registered. -/
theorem Good.notMem (h : Good linkDiscovery before s) (hlast : Last before dpid dp)
    (hdead : ¬Alive before dp) : dpid ∉ s.dps := by
  rw [h.registered]
  rintro ⟨dp', hid', halive⟩
  exact hdead (hlast dp' hid' halive ▸ halive)

theorem Good.dead_of_absent (h : Good false before s) (hid : dp.id = some dpid)
    (hlast : Last before dpid dp) (hdead : ¬Alive before dp) :
    ∃ s', deadHandler false dpid s = (.ok (), s') ∧ Good false (before ++ [.dead dp]) s' := by
  have hmem := h.notMem hlast hdead
  rw [deadHandler_of_notMem h.keys hmem]
  exact ⟨_, rfl,
    h.leave hid hlast rfl rfl (fun _ => rfl) (fun k => by simp [mark, presenceKind, hmem])
    fun _ _ hk => hk⟩

theorem Good.dead_of_unknown (h : Good linkDiscovery before s) (hid : dp.id = none) :
    Good linkDiscovery (before ++ [.dead dp]) s := by
  have halive : ∀ dp' k, dp'.id = some k →
      (Alive (before ++ [.dead dp]) dp' ↔ Alive before dp') := by
    intro dp' k hid'
    rw [alive_dead, and_iff_right]
    rintro rfl
    cases hid.symm.trans hid'
  refine ⟨h.keys, fun k => (h.registered k).trans ?_, h.alternates, h.present,
    fun k dp' hid' hdp' honly => ?_⟩
  · exact exists_congr fun dp' => and_congr_right fun hid' => (halive dp' k hid').symm
  · exact h.only k dp' hid' ((halive dp' k hid').1 hdp') fun dp₁ hid₁ h₁ =>
      honly dp₁ hid₁ ((halive dp₁ k hid₁).2 h₁)

variable {event : StateChange}

theorem Good.stateChange (h : Good linkDiscovery before s)
    (honly : OnlyConnection linkDiscovery before event) :
    ∃ s', stateChangeHandler linkDiscovery event s = (.ok (), s') ∧
      Good linkDiscovery (before ++ [event]) s' := by
  cases event with
  | main dp =>
    obtain ⟨dpid, hid⟩ := Option.isSome_iff_exists.1 honly
    simpa only [stateChangeHandler, hid] using h.main hid
  | dead dp =>
    cases hid : dp.id with
    | none =>
      refine ⟨s, ?_, h.dead_of_unknown hid⟩
      rw [stateChangeHandler, hid]
      rfl
    | some dpid =>
      simp only [stateChangeHandler, hid]
      obtain ⟨hlast, halive⟩ := honly dpid hid
      by_cases hdp : Alive before dp
      · exact h.dead_of_alive hid hlast hdp
      · obtain rfl := halive.resolve_left hdp
        exact h.dead_of_absent hid hlast hdp

theorem deadHandler_dps (hkeys : s.SameKeys) :
    (deadHandler linkDiscovery dpid s).2.dps = s.dps.erase dpid := by
  by_cases hmem : dpid ∈ s.dps
  · obtain ⟨dp, hdp⟩ := mem_iff_lookup.1 hmem
    obtain ⟨ports, hports⟩ := mem_iff_lookup.1 ((hkeys dpid).2 hmem)
    rw [deadHandler_of_lookup hkeys hdp hports]
    cases linkDiscovery with
    | false => rfl
    | true => exact foldl_removePort_dps _
  · rw [deadHandler_of_notMem hkeys hmem]
    rfl

/-! ### Runs -/

theorem runChanges_concat (event : StateChange) : runChanges linkDiscovery (before ++ [event]) =
    (stateChangeHandler linkDiscovery event (runChanges linkDiscovery before)).2 := by
  rw [runChanges, map_append, run, foldl_append]
  rfl

theorem onlyConnection_of_tracks (h : Good linkDiscovery before (runChanges linkDiscovery before))
    (htracks : Tracks linkDiscovery before event) : OnlyConnection linkDiscovery before event := by
  obtain ⟨hok, hregistered, -⟩ := htracks
  cases event with
  | main dp =>
    cases hid : dp.id with
    | none =>
      rw [stateChangeHandler, hid] at hok
      cases hok
    | some dpid => simp [OnlyConnection, hid]
  | dead dp =>
    intro dpid hid
    simp only [runChanges_concat, stateChangeHandler, hid] at hok hregistered
    have hlast : Last before dpid dp := by
      intro dp' hid' halive
      by_contra hne
      have hmem := (hregistered dpid).2 ⟨dp', hid', alive_dead.2 ⟨Ne.symm hne, halive⟩⟩
      rw [deadHandler_dps h.keys, mem_erase] at hmem
      exact hmem.1 rfl
    refine ⟨hlast, ?_⟩
    by_contra hnot
    rw [not_or, Bool.not_eq_false] at hnot
    obtain ⟨hdead, rfl⟩ := hnot
    rw [deadHandler_of_notMem h.keys (h.notMem hlast hdead)] at hok
    cases hok

/-- The handler works throughout a run if and only if each connection that dies is the only one of
its switch. -/
theorem tracks_iff_onlyConnection (linkDiscovery : Bool) (events : List StateChange) :
    Throughout (Tracks linkDiscovery) events ↔
      Throughout (OnlyConnection linkDiscovery) events := by
  refine throughout_iff (fun before => Good linkDiscovery before (runChanges linkDiscovery before))
    .init ?_ ?_ events
  · intro before event h
    refine ⟨onlyConnection_of_tracks h, fun honly => ?_⟩
    obtain ⟨s', hs', hgood⟩ := h.stateChange honly
    have hrun : runChanges linkDiscovery (before ++ [event]) = s' := by rw [runChanges_concat, hs']
    refine ⟨by rw [hs'], ?_, ?_⟩
    · rw [hrun]
      exact hgood.registered
    · rw [hrun]
      exact hgood.alternates
  · intro before event h honly
    obtain ⟨s', hs', hgood⟩ := h.stateChange honly
    rwa [runChanges_concat, hs']

/-- A switch that connects again is forgotten when its old connection dies; and a connection that
dies before it has reached MAIN ends the handler with an exception. -/
theorem not_tracks_reconnect :
    ¬Throughout (Tracks true)
      [.main ⟨0, some 1, 4, []⟩, .main ⟨1, some 1, 4, []⟩, .dead ⟨0, some 1, 4, []⟩] ∧
    ¬Throughout (Tracks true) [.dead ⟨0, some 1, 4, []⟩] := by
  constructor
  · intro h
    obtain ⟨-, hregistered, -⟩ := h [_, _] _ [] rfl
    have hmem := (hregistered 1).2
      ⟨⟨1, some 1, 4, []⟩, rfl, [.main ⟨0, some 1, 4, []⟩], [.dead ⟨0, some 1, 4, []⟩],
        rfl, by simp⟩
    exact absurd hmem (by decide)
  · intro h
    cases (h [] _ [] rfl).1

end BebaCtrl.Switches
