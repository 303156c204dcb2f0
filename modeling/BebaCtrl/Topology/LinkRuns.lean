import BebaCtrl.Topology.LinkDiscovery

/-!
# The links in every run

The links of the application and the links its observers know of are the same as long as no port is
seen to reach another port than before, and no port goes down whose peer reaches a third one. A port
that is deleted, or goes down, keeps the links that do not join it with its peer.
-/

namespace BebaCtrl.Switches

open Discovery History List Option State

variable (linkDiscovery : Bool)

/-! ### Links and events -/

/-- After the input, the links are those added and not deleted since. -/
def Announces (before : List Input) (input : Input) : Prop :=
  ∀ link, link ∈ (run linkDiscovery (before ++ [input])).links.timestamps ↔
    Since (.linkAdd link) (· ≠ .linkDelete link) (run linkDiscovery (before ++ [input])).sent

/-- A packet shows the peer its source already has, if it has one; and when ports go down, the peer
of each one reaches no port but one of them that reaches it. -/
def KeepsPeers (before : List Input) (input : Input) : Prop :=
  let s := run linkDiscovery before
  (∀ l, discovered linkDiscovery s input = some l →
    ∀ d, s.links.getPeer l.1 = some d → d = l.2) ∧
  ∀ p ∈ takenDown linkDiscovery s input, ∀ d x, s.links.getPeer p = some d →
    s.links.getPeer d = some x →
    x ∈ takenDown linkDiscovery s input ∧ s.links.getPeer x = some d

variable {linkDiscovery} {inputs before : List Input} {input : Input} {p : PortId}

theorem run_concat : run linkDiscovery (before ++ [input]) =
    (handle linkDiscovery input (run linkDiscovery before)).2 := by
  rw [run, foldl_append]
  rfl

theorem announces_iff : Announces linkDiscovery before input ↔
    (run linkDiscovery (before ++ [input])).view.announced =
      (run linkDiscovery (before ++ [input])).view.links := by
  rw [Set.ext_iff]
  exact ⟨fun h l => (h ⟨l.1, l.2⟩).symm, fun h link => (h (link.src, link.dst)).symm⟩

theorem faithful_init : (run linkDiscovery []).view.Faithful PortId.dpid where
  link_of_peer := by simp [run, view, LinkState.getPeer]
  side_ne := by simp [run, view]
  peer_of_link := by simp [run, view]
  announced_eq := by simp [run, view, not_since_nil]

/-- A step that is announced as it should be, and only such a step, keeps the links and the events
in step. -/
theorem announces_step (hkeys : (run linkDiscovery before).SameKeys)
    (hfaithful : (run linkDiscovery before).view.Faithful PortId.dpid) :
    (Announces linkDiscovery before input ↔ KeepsPeers linkDiscovery before input) ∧
    (KeepsPeers linkDiscovery before input →
      (run linkDiscovery (before ++ [input])).SameKeys ∧
        (run linkDiscovery (before ++ [input])).view.Faithful PortId.dpid) := by
  rw [announces_iff, run_concat]
  by_cases hcheck : ∃ now, input = .linkCheck now
  · obtain ⟨now, rfl⟩ := hcheck
    obtain ⟨hkeys', hfaithful'⟩ := linkCheck_faithful now hkeys hfaithful
    refine ⟨iff_of_true hfaithful'.announced_eq ?_, fun _ => ⟨hkeys', hfaithful'⟩⟩
    simp [KeepsPeers, discovered, takenDown]
  · obtain ⟨hkeys', hview⟩ := Shows.handle linkDiscovery ⟨hkeys, rfl⟩ hfaithful.toSound
      (not_exists.1 hcheck)
    rw [hview, KeepsPeers]
    cases hlink : discovered linkDiscovery (run linkDiscovery before) input with
    | none =>
      have hapart := apart_takenDown linkDiscovery hfaithful.toSound input
      simp only [elim_none, reduceCtorEq, false_implies, implies_true, true_and]
      exact ⟨hfaithful.foldl_down_iff hapart,
        fun hback => ⟨hkeys', hfaithful.foldl_down hapart hback⟩⟩
    | some l =>
      rw [takenDown_of_discovered hlink]
      simp only [elim_some, some.injEq, forall_eq', not_mem_nil, false_implies,
        implies_true, and_true]
      exact ⟨hfaithful.discover_iff, fun hsame =>
        ⟨hkeys', hfaithful.discover (dpid_ne_of_discovered hlink) hsame⟩⟩

/-- The links and the events agree throughout a run if and only if every packet shows the peer that
its source already has, and every port that goes down is the peer of its peer. -/
theorem announces_iff_keepsPeers (linkDiscovery : Bool) (inputs : List Input) :
    Throughout (Announces linkDiscovery) inputs ↔ Throughout (KeepsPeers linkDiscovery) inputs := by
  refine throughout_iff (fun before => (run linkDiscovery before).SameKeys ∧
    (run linkDiscovery before).view.Faithful PortId.dpid) ⟨fun _ => by simp [run], faithful_init⟩
    ?_ ?_ inputs
  · intro before input h
    exact (announces_step h.1 h.2).1
  · intro before input h
    exact (announces_step h.1 h.2).2

/-- Two packets of one port, received by ports of two switches. -/
def movedPeer : List Input :=
  [.stateChange (.main ⟨0, some 1, 4, [⟨1, 0, 0⟩]⟩),
    .stateChange (.main ⟨1, some 2, 4, [⟨1, 0, 0⟩]⟩),
    .stateChange (.main ⟨2, some 3, 4, [⟨1, 0, 0⟩]⟩), .lldpPacketIn 2 4 1 (.ok (some (1, 1))) 0]

theorem not_announces_movedPeer :
    ¬Announces true movedPeer (.lldpPacketIn 3 4 1 (.ok (some (1, 1))) 1) := by
  intro h
  have hlink := h ⟨⟨1, 1⟩, ⟨2, 1⟩⟩
  revert hlink
  decide

/-! ### Ports that are removed -/

/-- The port is deleted, goes down, or its switch disconnects. -/
def Removes : Input → PortId → Prop
  | .stateChange (.dead dp), p => dp.id = some p.dpid
  | .portStatus dpid _ .delete desc, p => p = ⟨dpid, desc.portNo⟩
  | .portStatus dpid version .modify desc, p =>
    p = ⟨dpid, desc.portNo⟩ ∧ (Port.mk dpid version desc).isDown
  | _, _ => False

/-- An LLDP packet was sent or received by the port. -/
def Names : Input → PortId → Prop
  | .lldpPacketIn dpid _ inPort (.ok (some (srcDpid, srcPortNo))) _, p =>
    p = ⟨srcDpid, srcPortNo⟩ ∨ p = ⟨dpid, inPort⟩
  | _, _ => False

/-- No link has the port as an end. -/
def State.Unlinked (s : State) (p : PortId) : Prop :=
  ∀ link ∈ s.links.timestamps, link.src ≠ p ∧ link.dst ≠ p

/-- A port that was removed has no links until an LLDP packet names it. -/
def Clears (linkDiscovery : Bool) (inputs : List Input) : Prop :=
  ∀ before input later after p, inputs = before ++ input :: (later ++ after) → Removes input p →
    (∀ input' ∈ later, ¬Names input' p) →
    (run linkDiscovery (before ++ input :: later)).Unlinked p

/-- Every link of a port that is removed joins it, or another port that is taken down, with the peer
of that port. -/
def JoinsPeer (linkDiscovery : Bool) (before : List Input) (input : Input) : Prop :=
  let s := run linkDiscovery before
  ∀ p, Removes input p → ∀ link ∈ s.links.timestamps, link.src = p ∨ link.dst = p →
    ∃ q ∈ takenDown linkDiscovery s input,
      s.links.getPeer q = some link.dst ∧ link.src = q ∨
        s.links.getPeer q = some link.src ∧ link.dst = q

theorem sound_run (linkDiscovery : Bool) (inputs : List Input) :
    (run linkDiscovery inputs).SameKeys ∧ (run linkDiscovery inputs).view.Sound PortId.dpid := by
  induction inputs using reverseRecOn with
  | nil => exact ⟨fun _ => by simp [run], faithful_init.toSound⟩
  | append_singleton before input ih =>
    obtain ⟨hkeys, hsound⟩ := ih
    rw [run_concat]
    by_cases hcheck : ∃ now, input = .linkCheck now
    · obtain ⟨now, rfl⟩ := hcheck
      obtain ⟨hkeys', hsound', -⟩ := linkCheck_sound now hkeys hsound
      exact ⟨hkeys', hsound'⟩
    · obtain ⟨hkeys', hview⟩ := Shows.handle linkDiscovery ⟨hkeys, rfl⟩ hsound
        (not_exists.1 hcheck)
      refine ⟨hkeys', ?_⟩
      rw [hview]
      cases hlink : discovered linkDiscovery (run linkDiscovery before) input with
      | none => exact hsound.foldl_down (apart_takenDown linkDiscovery hsound input)
      | some l => exact hsound.discover (dpid_ne_of_discovered hlink)

/-- In every run a peer is the end of a link, and links join two switches. -/
theorem consistent_run (linkDiscovery : Bool) (inputs : List Input) :
    let s := run linkDiscovery inputs
    (∀ dpid, dpid ∈ s.portState ↔ dpid ∈ s.dps) ∧
    (∀ p d, s.links.getPeer p = some d → ⟨p, d⟩ ∈ s.links.timestamps) ∧
    ∀ link ∈ s.links.timestamps, link.src.dpid ≠ link.dst.dpid := by
  obtain ⟨hkeys, hsound⟩ := sound_run linkDiscovery inputs
  exact ⟨hkeys, hsound.link_of_peer, fun link hlink => hsound.side_ne (link.src, link.dst) hlink⟩

/-- The links right after a port was removed. -/
theorem mem_links_of_removes (h : Removes input p) (link : Link) :
    link ∈ (run linkDiscovery (before ++ [input])).links.timestamps ↔
      link ∈ (run linkDiscovery before).links.timestamps ∧
      ¬(run linkDiscovery before).view.Joins
        (takenDown linkDiscovery (run linkDiscovery before) input) (link.src, link.dst) := by
  obtain ⟨hkeys, hsound⟩ := sound_run linkDiscovery before
  have hcheck : ∀ now, input ≠ .linkCheck now := by
    rintro now rfl
    exact h
  have hnone : discovered linkDiscovery (run linkDiscovery before) input = none := by
    unfold discovered
    split
    · exact h.elim
    · rfl
  obtain ⟨-, hview⟩ := Shows.handle linkDiscovery ⟨hkeys, rfl⟩ hsound hcheck
  rw [run_concat]
  have hlinks := Set.ext_iff.1 (congrArg View.links hview) (link.src, link.dst)
  rw [hnone] at hlinks
  exact hlinks.trans (View.mem_links_foldl_down (apart_takenDown linkDiscovery hsound input))

theorem names_of_discovered {s : State} {l : PortId × PortId}
    (h : discovered linkDiscovery s input = some l) : Names input l.1 ∧ Names input l.2 := by
  unfold discovered at h
  split at h
  · split_ifs at h
    cases h
    exact ⟨.inl rfl, .inr rfl⟩
  · cases h

/-- A port without links has none until a packet names it. -/
theorem unlinked_step (h : (run linkDiscovery before).Unlinked p) (hnames : ¬Names input p) :
    (run linkDiscovery (before ++ [input])).Unlinked p := by
  obtain ⟨hkeys, hsound⟩ := sound_run linkDiscovery before
  rw [run_concat]
  by_cases hcheck : ∃ now, input = .linkCheck now
  · obtain ⟨now, rfl⟩ := hcheck
    obtain ⟨-, -, hsub⟩ := linkCheck_sound now hkeys hsound
    exact fun link hlink => h link (hsub (a := (link.src, link.dst)) hlink)
  · obtain ⟨-, hview⟩ := Shows.handle linkDiscovery ⟨hkeys, rfl⟩ hsound (not_exists.1 hcheck)
    intro link hlink
    have hmem := (Set.ext_iff.1 (congrArg View.links hview) (link.src, link.dst)).1 hlink
    cases hfound : discovered linkDiscovery (run linkDiscovery before) input with
    | none =>
      rw [hfound, elim_none,
        View.mem_links_foldl_down (apart_takenDown linkDiscovery hsound input)] at hmem
      exact h link hmem.1
    | some l =>
      rw [hfound] at hmem
      rcases hmem with heq | hmem
      · obtain ⟨hsrc, hdst⟩ := names_of_discovered hfound
        rw [← (Prod.mk.inj heq).1] at hsrc
        rw [← (Prod.mk.inj heq).2] at hdst
        exact ⟨fun hp => hnames (hp ▸ hsrc), fun hp => hnames (hp ▸ hdst)⟩
      · exact h link hmem

/-- A port that was removed has no links until a packet names it, throughout a run, if and only if
each time its links join it with its peer and the handler comes to take them down. -/
theorem clears_iff_joinsPeer (linkDiscovery : Bool) (inputs : List Input) :
    Clears linkDiscovery inputs ↔ Throughout (JoinsPeer linkDiscovery) inputs := by
  constructor
  · intro h before input after heq p hremoves link hlink hend
    by_contra hnot
    have hleft := (mem_links_of_removes hremoves link).2 ⟨hlink, hnot⟩
    obtain ⟨hsrc, hdst⟩ := h before input [] after p heq hremoves (by simp) link hleft
    exact hend.elim hsrc hdst
  · intro h before input later after p heq hremoves hnames
    have hjoin := h before input (later ++ after) heq p hremoves
    clear heq
    induction later using reverseRecOn with
    | nil =>
      intro link hlink
      obtain ⟨hbefore, hnot⟩ := (mem_links_of_removes hremoves link).1 hlink
      exact not_or.1 fun hend => hnot (hjoin link hbefore hend)
    | append_singleton later input' ih =>
      rw [← cons_append, ← append_assoc]
      exact unlinked_step (ih fun i hi => hnames i (by simp [hi])) (hnames input' (by simp))

/-- Two switches with a link, as one packet shows it. -/
def oneLink : List Input :=
  [.stateChange (.main ⟨0, some 1, 4, [⟨1, 0, 0⟩]⟩),
    .stateChange (.main ⟨1, some 2, 4, [⟨1, 0, 0⟩]⟩), .lldpPacketIn 2 4 1 (.ok (some (1, 1))) 0]

/-- The link stays when its source is deleted, and when its destination goes down or leaves with its
switch. -/
theorem not_clears_oneLink :
    ¬Clears true (oneLink ++ [.portStatus 1 4 .delete ⟨1, 0, 0⟩]) ∧
    ¬Clears true (oneLink ++ [.portStatus 2 4 .modify ⟨1, 1, 0⟩]) ∧
    ¬Clears true (oneLink ++ [.stateChange (.dead ⟨1, some 2, 4, [⟨1, 0, 0⟩]⟩)]) := by
  refine ⟨fun h => ?_, fun h => ?_, fun h => ?_⟩
  · have hclear := h oneLink _ [] [] ⟨1, 1⟩ rfl rfl (by simp) ⟨⟨1, 1⟩, ⟨2, 1⟩⟩ (by decide)
    exact hclear.1 rfl
  · have hclear :=
      h oneLink _ [] [] ⟨2, 1⟩ rfl ⟨rfl, by decide⟩ (by simp) ⟨⟨1, 1⟩, ⟨2, 1⟩⟩ (by decide)
    exact hclear.2 rfl
  · have hclear := h oneLink _ [] [] ⟨2, 1⟩ rfl rfl (by simp) ⟨⟨1, 1⟩, ⟨2, 1⟩⟩ (by decide)
    exact hclear.2 rfl

end BebaCtrl.Switches
