import BebaCtrl.Stp.Handlers

/-!
# The roles that handlers leave

What each handler does to the roles, if nothing interrupts it. A recalculation makes them right,
whatever they were (`Wf.recalculated`). The other handlers change one port only; then the others
keep their roles if the root port stays.
-/

namespace BebaCtrl.Stp

open List Option AList Dict

/-- The ports have the roles that follow from the stored messages, and a port that is not designated
by them does not forward. -/
def Bridge.Settled (b : Bridge) : Prop :=
  ∀ n p, b.ports.lookup n = some p → p.Enabled →
    b.reset.spanningTreeAlgorithm.1.lookup n = some p.role ∧
      (b.reset.spanningTreeAlgorithm.1.lookup n = some .nonDesignated → p.state ≠ .forward)

/-- Adding a port does not disturb the roles: if it takes the place of the root port, no other port
has a message about a better root than the bridge, and if it is a new one, no other port has a
message as good as that of the root port. -/
def NewPort.Undisturbing (new : NewPort) (b : Bridge) : Prop :=
  if new.portNo ∈ b.ports then
    (∃ p, b.ports.lookup new.portNo = some p ∧ p.Enabled ∧ p.role = .root) →
      ∀ n p m, n ≠ new.portNo → b.ports.lookup n = some p → m ∈ p.offer →
        b.bridgeId.value ≤ m.1.rootId.value
  else
    ∀ r root m n p m', b.ports.lookup r = some root → root.role = .root → m ∈ root.offer →
      b.ports.lookup n = some p → m' ∈ p.offer → m'.1.key = m.1.key → n = r

/-! ### The invariant -/

/-- A port is enabled only if it is configured to be, and has stored nothing while it is not. -/
structure Port.Wf (p : Port) : Prop where
  configEnable : p.Enabled → p.configEnable = true
  designated : ¬p.Enabled → p.designated = none

namespace Port.Wf

variable {p : Port} {role : PortRole} {rootPriority : Priority} {rootTimes : Times}

theorem offer_eq (h : p.Wf) : p.offer = p.designated := by
  unfold Port.offer
  split
  next => rfl
  next hdisabled => exact (h.designated hdisabled).symm

theorem upped (h : p.Wf) : (p.upped role rootPriority rootTimes).Wf := by
  refine ⟨Port.enabled_upped.1, fun hdisabled => h.designated fun henabled => ?_⟩
  exact hdisabled (Port.enabled_upped.2 (h.configEnable henabled))

theorem offer_upped (h : p.Wf) : (p.upped role rootPriority rootTimes).offer = p.offer := by
  rw [h.upped.offer_eq, h.offer_eq]
  rfl

/-- A port that is brought down is disabled. -/
theorem downed (h : p.Wf) : (p.downed .disable true).Wf ∧
    ¬(p.downed .disable true).Enabled ∧ (p.downed .disable true).designated = none := by
  unfold Port.downed
  split
  next hconfig => exact ⟨⟨fun _ => hconfig, fun _ => rfl⟩, fun henabled => henabled rfl, rfl⟩
  next hconfig =>
    have hdisabled : ¬p.Enabled := fun henabled => hconfig (h.configEnable henabled)
    exact ⟨h, hdisabled, h.designated hdisabled⟩

end Port.Wf

variable {new : NewPort}

namespace Bridge

def Wf (b : Bridge) : Prop := ∀ n p, b.ports.lookup n = some p → p.Wf

structure Inv (b : Bridge) : Prop where
  wf : b.Wf
  role : ∀ n p, b.ports.lookup n = some p → p.Enabled → p.role = b.reset.roleOf n p
  state : ∀ n p, b.ports.lookup n = some p → p.role = .nonDesignated → p.state ≠ .forward

variable {b b' : Bridge} {n : ℕ} {p : Port}

theorem Inv.settled (h : b.Inv) : b.Settled := by
  intro n p hp henabled
  have hlookup := lookup_spanningTreeAlgorithm (b := b.reset) hp henabled
  rw [← h.role n p hp henabled] at hlookup
  refine ⟨hlookup, fun hrole => ?_⟩
  rw [hlookup] at hrole
  exact h.state n p hp (some.inj hrole)

/-- The candidates stay if the messages do. -/
theorem candidates_mapPorts {f : ℕ → Port → Port}
    (h : ∀ n p, b.ports.lookup n = some p → (f n p).offer = p.offer) :
    (b.mapPorts f).candidates = b.candidates := by
  rw [candidates_eq, candidates_eq]
  change filterMap _ (b.ports.entries.map _) = _
  rw [filterMap_map]
  apply filterMap_congr
  rintro ⟨n, p⟩ hmem
  simp [h n p (mem_entries.1 hmem)]

/-! ### Recalculation -/

variable {init : Bool}

theorem lookup_newRoles (hp : b.ports.lookup n = some p) (henabled : p.Enabled)
    (hinit : init = true → ∀ n p, b.ports.lookup n = some p → p.offer = none) :
    (b.reset.newRoles init).1.lookup n = some (b.reset.roleOf n p) := by
  cases init with
  | false => exact lookup_spanningTreeAlgorithm (b := b.reset) hp henabled
  | true =>
    have hnone : p.designated = none := by
      have hoffer := hinit rfl n p hp
      rwa [Port.offer, if_pos henabled] at hoffer
    have hmem : n ∈ b.ports.keys := mem_keys.1 (mem_of_lookup hp)
    rw [roleOf_eq_designated (b := b.reset) rfl hp hnone]
    exact lookup_foldl_insert.trans (if_pos hmem)

/-- A port after all have been brought down. -/
theorem Wf.of_lookup_allDown (h : b.Wf) (hp : (b.allDown init).ports.lookup n = some p) :
    p.Wf ∧ (p.Enabled → init = true → p.designated = none) := by
  rw [allDown, lookup_mapPorts] at hp
  obtain ⟨p', hp', rfl⟩ := map_eq_some_iff.1 hp
  by_cases henabled : p'.Enabled
  · have hconfig := (h n p' hp').configEnable henabled
    rw [if_pos henabled, Port.downed, if_pos hconfig]
    refine ⟨⟨fun _ => hconfig, fun hdisabled => absurd ?_ hdisabled⟩, fun _ hinit => if_pos hinit⟩
    simp [Port.Enabled]
  · rw [if_neg henabled]
    exact ⟨h n p' hp', fun henabled' => absurd henabled' henabled⟩

/-- A port at the end: it is disabled, or it has been brought up with its new role. -/
theorem Wf.of_lookup_recalculated (h : b.Wf) (hp : (b.recalculated init).ports.lookup n = some p) :
    ∃ p', (b.allDown init).ports.lookup n = some p' ∧ (¬p'.Enabled ∧ p = p' ∨
      p'.Enabled ∧ ∃ rootPriority rootTimes,
        p = p'.upped ((b.allDown init).reset.roleOf n p') rootPriority rootTimes) := by
  rw [Bridge.recalculated, lookup_mapPorts] at hp
  obtain ⟨p', hp', rfl⟩ := map_eq_some_iff.1 hp
  refine ⟨p', hp', ?_⟩
  by_cases henabled : p'.Enabled
  · have hrole : ((b.allDown init).reset.newRoles init).1.lookup n =
        some ((b.allDown init).reset.roleOf n p') := by
      refine lookup_newRoles hp' henabled fun hinit n' q hq => ?_
      unfold Port.offer
      split
      next hq' => exact (h.of_lookup_allDown hq).2 hq' hinit
      next => rfl
    rw [hrole]
    exact .inr ⟨henabled, _, _, if_pos henabled⟩
  · refine .inl ⟨henabled, ?_⟩
    cases ((b.allDown init).reset.newRoles init).1.lookup n with
    | none => rfl
    | some role => exact if_neg henabled

theorem Wf.candidates_recalculated (h : b.Wf) (init : Bool) :
    (b.recalculated init).candidates = (b.allDown init).candidates := by
  refine candidates_mapPorts (b := { b.allDown init with .. }) fun n p hp => ?_
  cases ((b.allDown init).reset.newRoles init).1.lookup n with
  | none => rfl
  | some role =>
    by_cases henabled : p.Enabled
    · rw [elim_some, if_pos henabled]
      exact (h.of_lookup_allDown hp).1.offer_upped
    · rw [elim_some, if_neg henabled]

/-- Whatever the roles were before, they are right afterwards. -/
theorem Wf.recalculated (h : b.Wf) (init : Bool) : (b.recalculated init).Inv where
  wf n p hp := by
    obtain ⟨p', hp', ⟨-, rfl⟩ | ⟨-, _, _, rfl⟩⟩ := h.of_lookup_recalculated hp
    · exact (h.of_lookup_allDown hp').1
    · exact (h.of_lookup_allDown hp').1.upped
  role n p hp henabled := by
    have hroot : (b.recalculated init).reset.selectRootPort =
        (b.allDown init).reset.selectRootPort :=
      selectRootPort_reset_congr rfl (h.candidates_recalculated init)
    obtain ⟨p', hp', ⟨hdisabled, rfl⟩ | ⟨-, _, _, rfl⟩⟩ := h.of_lookup_recalculated hp
    · exact absurd henabled hdisabled
    · exact roleOf_congr rfl hroot.symm rfl rfl rfl
  state n p hp _ := by
    obtain ⟨p', hp', ⟨hdisabled, rfl⟩ | ⟨-, _, _, rfl⟩⟩ := h.of_lookup_recalculated hp
    · exact Port.state_ne_forward hdisabled
    · exact Port.state_upped_ne_forward

/-! ### One port -/

variable {f : Port → Port}

theorem of_lookup_adjust (hp : (b.adjust n f).ports.lookup n = some p) :
    ∃ p', b.ports.lookup n = some p' ∧ p = f p' := by
  rw [lookup_adjust, if_pos rfl] at hp
  obtain ⟨p', hp', rfl⟩ := map_eq_some_iff.1 hp
  exact ⟨p', hp', rfl⟩

theorem Wf.adjust (h : b.Wf) (hf : ∀ p, b.ports.lookup n = some p → p.Wf → (f p).Wf) :
    (b.adjust n f).Wf := by
  intro n' p hp
  by_cases hne : n' = n
  · subst hne
    obtain ⟨p', hp', rfl⟩ := of_lookup_adjust hp
    exact hf p' hp' (h n' p' hp')
  · rw [lookup_adjust, if_neg hne] at hp
    exact h n' p hp

/-- One port changes, and the root port stays. -/
theorem Inv.of_others (h : b.Inv) (hid : b'.bridgeId = b.bridgeId)
    (hroot : b'.reset.selectRootPort = b.reset.selectRootPort)
    (hothers : ∀ n' ≠ n, b'.ports.lookup n' = b.ports.lookup n')
    (hn : ∀ p, b'.ports.lookup n = some p →
      p.Wf ∧ (p.Enabled → p.role = b'.reset.roleOf n p) ∧
        (p.role = .nonDesignated → p.state ≠ .forward)) :
    b'.Inv := by
  have hcases : ∀ n' p, b'.ports.lookup n' = some p → n' = n ∨ b.ports.lookup n' = some p := by
    intro n' p hp
    by_cases hne : n' = n
    · exact .inl hne
    · exact .inr ((hothers n' hne).symm.trans hp)
  constructor
  · intro n' p hp
    rcases hcases n' p hp with rfl | hp'
    · exact (hn p hp).1
    · exact h.wf n' p hp'
  · intro n' p hp henabled
    rcases hcases n' p hp with rfl | hp'
    · exact (hn p hp).2.1 henabled
    · rw [h.role n' p hp' henabled]
      exact roleOf_congr hid.symm hroot.symm rfl rfl rfl
  · intro n' p hp
    rcases hcases n' p hp with rfl | hp'
    · exact (hn p hp).2.2
    · exact h.state n' p hp'

/-- One port changes in place, and its message stays. -/
theorem Inv.adjust (h : b.Inv) (hoffer : ∀ p, b.ports.lookup n = some p → (f p).offer = p.offer)
    (hn : ∀ p, b.ports.lookup n = some p → (f p).Wf ∧ ((f p).Enabled →
      (f p).role = b.reset.roleOf n (f p)) ∧
        ((f p).role = .nonDesignated → (f p).state ≠ .forward)) :
    (b.adjust n f).Inv := by
  have hcandidates : (b.adjust n f).candidates = b.candidates := by
    refine candidates_mapPorts fun n' p hp => ?_
    by_cases hne : n' = n
    · subst hne
      rw [if_pos rfl]
      exact hoffer p hp
    · rw [if_neg hne]
  have hroot : (b.adjust n f).reset.selectRootPort = b.reset.selectRootPort :=
    selectRootPort_reset_congr rfl hcandidates
  refine h.of_others (n := n) rfl hroot ?_ ?_
  · exact fun n' hne => by rw [lookup_adjust, if_neg hne]
  · intro p hp
    obtain ⟨p', hp', rfl⟩ := of_lookup_adjust hp
    obtain ⟨hwf, hrole, hstate⟩ := hn p' hp'
    refine ⟨hwf, fun henabled => ?_, hstate⟩
    rw [hrole henabled]
    exact roleOf_congr rfl hroot.symm rfl rfl rfl

/-- A port comes up that was disabled, or designated already. -/
theorem Inv.up (h : b.Inv) {rootPriority : Priority} {rootTimes : Times}
    (hdesignated : ∀ p, b.ports.lookup n = some p → p.Enabled → p.role = .designated) :
    (b.adjust n (·.upped .designated rootPriority rootTimes)).Inv := by
  refine h.adjust (fun p hp => (h.wf n p hp).offer_upped) fun p hp => ?_
  refine ⟨(h.wf n p hp).upped, fun _ => ?_, fun _ => Port.state_upped_ne_forward⟩
  have hrole : b.reset.roleOf n p = .designated := by
    by_cases henabled : p.Enabled
    · rw [← h.role n p hp henabled]
      exact hdesignated p hp henabled
    · exact roleOf_eq_designated (b := b.reset) rfl hp ((h.wf n p hp).designated henabled)
  exact hrole.symm.trans (roleOf_congr rfl rfl rfl rfl rfl)

/-- The forward delay of a port is over. -/
theorem Inv.forwardDelay (h : b.Inv) {newState : PortState} (hp : b.ports.lookup n = some p)
    (hnext : p.nextState = some newState) : (b.adjust n ({ · with state := newState })).Inv := by
  have hstates : p.Enabled ∧ newState ≠ .disable ∧
      (p.role = .nonDesignated → newState ≠ .forward) := by
    unfold Port.nextState at hnext
    unfold Port.Enabled
    grind
  obtain ⟨henabled, hnew, hforward⟩ := hstates
  have heq : ∀ p', b.ports.lookup n = some p' → p' = p := by grind
  refine h.adjust (fun p' hp' => ?_) fun p' hp' => ?_
  · rw [heq p' hp', Port.offer, Port.offer, if_pos henabled]
    exact if_pos hnew
  · rw [heq p' hp']
    refine ⟨⟨fun _ => (h.wf n p hp).configEnable henabled, fun hdisabled => absurd hnew hdisabled⟩,
      fun _ => ?_, hforward⟩
    exact (h.role n p hp henabled).trans (roleOf_congr rfl rfl rfl rfl rfl)

/-! ### Ports that lose their message -/

theorem candidates_adjust_of_none (h : ∀ p, b.ports.lookup n = some p → (f p).offer = none) :
    (b.adjust n f).candidates = b.candidates.filter (·.portNo ≠ n) := by
  rw [candidates_eq, candidates_eq, filter_filterMap]
  change filterMap _ (b.ports.entries.map _) = _
  rw [filterMap_map]
  apply filterMap_congr
  rintro ⟨n', p⟩ hmem
  by_cases hne : n' = n
  · subst hne
    cases p.offer <;> simp [h p (mem_entries.1 hmem), Option.filter]
  · cases hoffer : p.offer <;> simp [hne, hoffer, Option.filter]

section

variable (h : b.Inv) (hrole : ∀ p, b.ports.lookup n = some p → p.Enabled → p.role ≠ .root)
include h hrole

/-- The root port stays if another port loses its message. -/
theorem Inv.selectRootPort_filter (hid : b'.bridgeId = b.bridgeId)
    (hcandidates : b'.candidates = b.candidates.filter (·.portNo ≠ n)) :
    b'.reset.selectRootPort = b.reset.selectRootPort := by
  have hbest := selectRootPort_spec (b := b.reset) rfl
  refine selectRootPort_eq ?_ rfl
  change b'.reset.IsBest b'.candidates _
  rw [hcandidates]
  refine (hbest.filter ?_).congr hid.symm
  intro r hr
  rw [mem_def.1 hr] at hbest
  obtain ⟨p, hp, henabled, -⟩ := mem_candidates.1 hbest.mem
  have hroot : p.role = .root := by
    rw [h.role r.portNo p hp henabled, roleOf, mem_def.1 hr]
    exact if_pos rfl
  rw [decide_eq_true_eq]
  rintro rfl
  exact hrole p hp henabled hroot

/-- A port that is not the root port is replaced by one without a message, or changed so that it has
none. -/
theorem Inv.adjust_of_none (hn : ∀ p, b.ports.lookup n = some p →
      (f p).Wf ∧ (f p).designated = none ∧ ((f p).Enabled → (f p).role = .designated)) :
    (b.adjust n f).Inv := by
  have hroot : (b.adjust n f).reset.selectRootPort = b.reset.selectRootPort := by
    refine h.selectRootPort_filter hrole rfl (candidates_adjust_of_none fun p hp => ?_)
    rw [Port.offer, (hn p hp).2.1, ite_self]
  refine h.of_others (n := n) rfl hroot ?_ ?_
  · exact fun n' hne => by rw [lookup_adjust, if_neg hne]
  · intro p hp
    obtain ⟨p', hp', rfl⟩ := of_lookup_adjust hp
    obtain ⟨hwf, hnone, hdesignated⟩ := hn p' hp'
    refine ⟨hwf, fun henabled => ?_, fun hrole => Port.state_ne_forward fun henabled => ?_⟩
    · rw [roleOf_eq_designated (b := (b.adjust n f).reset) rfl hp hnone, hdesignated henabled]
    · rw [hdesignated henabled] at hrole
      cases hrole

end

theorem Inv.down (h : b.Inv) (hrole : ∀ p, b.ports.lookup n = some p → p.role ≠ .root) :
    (b.adjust n (·.downed .disable true)).Inv := by
  refine h.adjust_of_none (fun p hp _ => hrole p hp) fun p hp => ?_
  obtain ⟨hwf, hdisabled, hnone⟩ := (h.wf n p hp).downed
  exact ⟨hwf, hnone, fun henabled => absurd henabled hdisabled⟩

theorem candidates_erase (hp : b.ports.lookup n = some p) (hoffer : p.offer = none) :
    { b with ports := b.ports.erase n }.candidates = b.candidates := by
  obtain ⟨p', before, after, -, hentries, herase⟩ :=
    exists_of_kerase (mem_keys.1 (mem_of_lookup hp))
  have hp' : b.ports.lookup n = some p' := by
    rw [← mem_entries, hentries]
    simp
  rw [hp] at hp'
  cases hp'
  rw [candidates_eq, candidates_eq, hentries]
  change (kerase n b.ports.entries).filterMap _ = _
  rw [herase]
  simp [hoffer]

/-- A port that is disabled is deleted. -/
theorem Inv.erase (h : b.Inv) (hp : b.ports.lookup n = some p) (hdisabled : ¬p.Enabled) :
    { b with ports := b.ports.erase n }.Inv := by
  have hcandidates := candidates_erase hp (if_neg hdisabled)
  refine h.of_others (n := n) rfl (selectRootPort_reset_congr rfl hcandidates) ?_ ?_
  · exact fun n' hne => lookup_erase_ne hne
  · intro p' hp'
    rw [show AList.lookup n (b.ports.erase n) = none from lookup_erase ..] at hp'
    cases hp'

/-- A bridge after `link_down` of the port `p`. -/
def linkedDown (b : Bridge) (n : ℕ) (p : Port) : Bridge :=
  if p.role = .root then (b.adjust n (·.downed .disable true)).recalculated true
  else b.adjust n (·.downed .disable true)

theorem Inv.linkedDown (h : b.Inv) (hp : b.ports.lookup n = some p) : (b.linkedDown n p).Inv := by
  unfold Bridge.linkedDown
  split
  next hrole => exact Wf.recalculated (h.wf.adjust fun _ _ hwf => hwf.downed.1) true
  next hrole =>
    refine h.down fun p' hp' => ?_
    cases hp.symm.trans hp'
    exact hrole

theorem lookup_recalculated (hp : b.ports.lookup n = some p) (hdisabled : ¬p.Enabled) :
    (b.recalculated init).ports.lookup n = some p := by
  have hdown : (b.allDown init).ports.lookup n = some p := by
    rw [allDown, lookup_mapPorts, hp, map_some, if_neg hdisabled]
  rw [recalculated, lookup_mapPorts]
  rw [hdown]
  cases ((b.allDown init).reset.newRoles init).1.lookup n with
  | none => rfl
  | some role => exact congrArg some (if_neg hdisabled)

/-- The port is disabled afterwards. -/
theorem Inv.lookup_linkedDown (h : b.Inv) (hp : b.ports.lookup n = some p) :
    ∃ p', (b.linkedDown n p).ports.lookup n = some p' ∧ ¬p'.Enabled := by
  have hdown : (b.adjust n (·.downed .disable true)).ports.lookup n =
      some (p.downed .disable true) := by
    rw [lookup_adjust, if_pos rfl, hp]
    rfl
  have hdisabled := (h.wf n p hp).downed.2.1
  refine ⟨_, ?_, hdisabled⟩
  unfold Bridge.linkedDown
  split
  next => exact lookup_recalculated hdown hdisabled
  next => exact hdown

/-! ### Messages that arrive -/

def store (b : Bridge) (n : ℕ) (msg : Message × Times) : Bridge :=
  b.adjust n ({ · with designated := some msg })

theorem Wf.store (h : b.Wf) {msg : Message × Times} (hp : b.ports.lookup n = some p)
    (henabled : p.Enabled) : (b.store n msg).Wf := by
  refine h.adjust fun p' hp' hwf => ?_
  cases hp.symm.trans hp'
  exact ⟨hwf.configEnable, fun hdisabled => absurd henabled hdisabled⟩

/-! ### New ports -/

theorem wf_newPort : (new.port b).Wf := by
  refine ⟨fun henabled => ?_, fun _ => rfl⟩
  cases hconfig : new.configEnable with
  | false => simp [Port.Enabled, NewPort.port, hconfig] at henabled
  | true => exact hconfig

/-- The root port is replaced, and no other port has a message about a better root: then the bridge
is the root, and the other ports were designated before. -/
theorem Inv.replace_root (h : b.Inv) (hp : b.ports.lookup new.portNo = some p)
    (henabled : p.Enabled) (hrole : p.role = .root)
    (hothers : ∀ n p m, n ≠ new.portNo → b.ports.lookup n = some p → m ∈ p.offer →
      b.bridgeId.value ≤ m.1.rootId.value) :
    (b.replacePort new).Inv := by
  have hbest := selectRootPort_spec (b := b.reset) rfl
  rw [h.role _ p hp henabled] at hrole
  obtain ⟨r, hr, hno⟩ := roleOf_eq_root_iff.1 hrole
  rw [hr] at hbest
  have hnone : (b.replacePort new).reset.selectRootPort = none := by
    refine selectRootPort_eq ?_ rfl
    change IsBest _ (b.replacePort new).candidates none
    rw [replacePort, candidates_adjust_of_none fun _ _ => wf_newPort.offer_eq]
    intro c hc
    obtain ⟨hc, hne⟩ := mem_filter.1 hc
    obtain ⟨p', hp', henabled', hm⟩ := mem_candidates.1 hc
    refine hothers c.portNo p' (c.msg, c.times) (of_decide_eq_true hne) hp' ?_
    rw [Port.offer, if_pos henabled']
    exact hm
  have hdesignated : ∀ n' p', n' ≠ new.portNo → b.ports.lookup n' = some p' → p'.Enabled →
      p'.role = .designated := by
    intro n' p' hne hp' henabled'
    have hvacuous : b.reset.IsDesignated r.msg n' p' := by
      intro m hm heq
      have hle := hothers n' p' m hne hp' ((h.wf n' p' hp').offer_eq ▸ hm)
      have hlt : r.msg.rootId.value < b.bridgeId.value := hbest.1
      omega
    rw [h.role n' p' hp' henabled', roleOf, hr]
    dsimp only
    rw [if_neg (hno ▸ hne), if_pos hvacuous]
  constructor
  · exact h.wf.adjust fun _ _ _ => wf_newPort
  · intro n' p' hp' henabled'
    rw [roleOf, hnone]
    by_cases hne : n' = new.portNo
    · subst hne
      obtain ⟨_, -, rfl⟩ := of_lookup_adjust hp'
      rfl
    · rw [replacePort, lookup_adjust, if_neg hne] at hp'
      exact hdesignated n' p' hne hp' henabled'
  · intro n' p' hp'
    by_cases hne : n' = new.portNo
    · subst hne
      obtain ⟨_, -, rfl⟩ := of_lookup_adjust hp'
      rintro ⟨⟩
    · rw [replacePort, lookup_adjust, if_neg hne] at hp'
      exact h.state n' p' hp'

/-- In another order the root port stays if it has no equal. -/
theorem Inv.selectRootPort_of_mem (h : b.Inv) (hid : b'.bridgeId = b.bridgeId)
    (hmem : ∀ c, c ∈ b'.candidates ↔ c ∈ b.candidates)
    (hties : ∀ r root m n p m', b.ports.lookup r = some root → root.role = .root → m ∈ root.offer →
      b.ports.lookup n = some p → m' ∈ p.offer → m'.1.key = m.1.key → n = r) :
    b'.reset.selectRootPort = b.reset.selectRootPort := by
  have hbest := selectRootPort_spec (b := b.reset) rfl
  refine selectRootPort_eq (IsBest.congr (b := b.reset) hid.symm ?_) rfl
  cases hr : b.reset.selectRootPort with
  | none =>
    rw [hr] at hbest
    exact fun c hc => hbest c ((hmem c).1 hc)
  | some r =>
    rw [hr] at hbest
    refine .of_forall ((hmem r).2 hbest.mem) hbest.1 fun c hc => ?_
    have hc := (hmem c).1 hc
    rcases (hbest.key_le hc).eq_or_lt with heq | hlt
    · obtain ⟨root, hroot, henabled, hm⟩ := mem_candidates.1 hbest.mem
      obtain ⟨p, hp, henabled', hm'⟩ := mem_candidates.1 hc
      have hrole : root.role = .root := by
        rw [h.role r.portNo root hroot henabled]
        exact roleOf_eq_root_iff.2 ⟨r, hr, rfl⟩
      rw [← (h.wf _ _ hroot).offer_eq] at hm
      rw [← (h.wf _ _ hp).offer_eq] at hm'
      have hno : c.portNo = r.portNo := hties _ _ _ _ _ _ hroot hrole hm hp hm' heq.symm
      rw [hno] at hp
      cases hroot.symm.trans hp
      cases c
      simp_all
    · exact .inr hlt

/-- A new port is added, and the root port has no equal. -/
theorem Inv.insert (h : b.Inv) (hnew : new.portNo ∉ b.ports)
    (hties : ∀ r root m n p m', b.ports.lookup r = some root → root.role = .root →
      m ∈ root.offer → b.ports.lookup n = some p → m' ∈ p.offer → m'.1.key = m.1.key → n = r) :
    (b.insertPort new).Inv := by
  have hlookup : ∀ n, (b.insertPort new).ports.lookup n =
      if n = new.portNo then some (new.port b) else b.ports.lookup n := by
    intro n
    rw [insertPort, Dict.lookup_arrange, Dict.lookup_insert]
  refine h.of_others (n := new.portNo) rfl (h.selectRootPort_of_mem rfl (fun c => ?_) hties) ?_ ?_
  · rw [mem_candidates, mem_candidates, hlookup]
    by_cases hne : c.portNo = new.portNo
    · rw [if_pos hne, hne, lookup_eq_none.2 hnew]
      simp [NewPort.port]
    · rw [if_neg hne]
  · exact fun n' hne => (hlookup n').trans (if_neg hne)
  · intro p hp
    have hp' := hp
    rw [hlookup, if_pos rfl] at hp'
    cases hp'
    refine ⟨wf_newPort, fun _ => ?_, ?_⟩
    · exact (roleOf_eq_designated (b := (b.insertPort new).reset) rfl hp rfl).symm
    · rintro ⟨⟩

theorem Inv.addPort (h : b.Inv) (hnew : new.Undisturbing b) :
    (if new.portNo ∈ b.ports then b.replacePort new else b.insertPort new).Inv := by
  unfold NewPort.Undisturbing at hnew
  split
  next hmem =>
    rw [if_pos hmem] at hnew
    by_cases hroot : ∃ p, b.ports.lookup new.portNo = some p ∧ p.Enabled ∧ p.role = .root
    · obtain ⟨p, hp, henabled, hrole⟩ := hroot
      exact h.replace_root hp henabled hrole (hnew ⟨p, hp, henabled, hrole⟩)
    · refine h.adjust_of_none ?_ fun _ _ => ⟨wf_newPort, rfl, fun _ => rfl⟩
      exact fun p hp henabled hrole => hroot ⟨p, hp, henabled, hrole⟩
  next hmem =>
    rw [if_neg hmem] at hnew
    exact h.insert hmem hnew

end Bridge

/-! ### The handlers -/

namespace Handler

open Coop

variable {s : Shared} {n : ℕ}

theorem inv_portAdd (h : s.bridge.Inv) (hnew : new.portNo ≤ maxPortNo → new.Undisturbing s.bridge) :
    ((portAdd new).finish s).bridge.Inv := by
  unfold portAdd
  split
  next hno => exact h.addPort (hnew hno)
  next => exact h

variable {k : Port → Coop Shared Unit} {p : Port}

theorem atomic_getItem_bind (hp : s.bridge.ports.lookup n = some p) :
    (liftM (s.bridge.ports.getItem n) >>= k : Coop Shared Unit).atomic s = (k p).atomic s :=
  atomic_bind_of_ok (atomic_lift.trans (by rw [getItem_of_lookup hp]))

theorem atomic_getItem_bind_none (hp : s.bridge.ports.lookup n = none) :
    (liftM (s.bridge.ports.getItem n) >>= k : Coop Shared Unit).atomic s = (.error .keyError, s) :=
  atomic_bind_of_error (atomic_lift.trans (by rw [getItem_of_notMem (lookup_eq_none.1 hp)]))

theorem inv_linkUp (h : s.bridge.Inv)
    (hn : ∀ p, s.bridge.ports.lookup n = some p → p.Enabled → p.role = .designated) :
    ((linkUp n).finish s).bridge.Inv := by
  have hget : (linkUp n).atomic s = _ := atomic_get_bind
  rw [finish_eq_atomic, hget]
  cases hp : s.bridge.ports.lookup n with
  | none =>
    rw [atomic_getItem_bind_none hp]
    exact h
  | some p =>
    rw [atomic_getItem_bind hp, atomic_up, Shared.assign_ref]
    exact h.up hn

theorem atomic_linkDown (hp : s.bridge.ports.lookup n = some p) :
    (linkDown n).atomic s = (.ok (), { s with bridge := s.bridge.linkedDown n p }) := by
  refine (atomic_get_bind (s := s)).trans ((atomic_getItem_bind hp).trans ?_)
  refine (atomic_bind_of_ok (atomic_down.trans (by rw [Shared.assign_ref]))).trans ?_
  unfold Bridge.linkedDown
  split
  next => exact atomic_recalculateSpanningTree
  next => rfl

theorem inv_linkDown (h : s.bridge.Inv) : ((linkDown n).finish s).bridge.Inv := by
  rw [finish_eq_atomic]
  cases hp : s.bridge.ports.lookup n with
  | none =>
    rw [show (linkDown n).atomic s = _ from atomic_get_bind, atomic_getItem_bind_none hp]
    exact h
  | some p =>
    rw [atomic_linkDown hp]
    exact h.linkedDown hp

theorem inv_portDelete (h : s.bridge.Inv) : ((portDelete n).finish s).bridge.Inv := by
  rw [finish_eq_atomic]
  cases hp : s.bridge.ports.lookup n with
  | none =>
    have hraise : (linkDown n).atomic s = (.error .keyError, s) :=
      (atomic_get_bind (s := s)).trans (atomic_getItem_bind_none hp)
    rw [show (portDelete n).atomic s = _ from atomic_bind_of_error hraise]
    exact h
  | some p =>
    obtain ⟨p', hp', hdisabled⟩ := h.lookup_linkedDown hp
    have hdel : (s.bridge.linkedDown n p).ports.delItem n =
        .ok ((s.bridge.linkedDown n p).ports.erase n) := delItem_of_mem (mem_of_lookup hp')
    have hfinal : (portDelete n).atomic s = (.ok (), { s with
        bridge := { s.bridge.linkedDown n p with
          ports := (s.bridge.linkedDown n p).ports.erase n } }) := by
      refine (atomic_bind_of_ok (atomic_linkDown hp)).trans ?_
      refine atomic_get_bind.trans ((atomic_getItem_bind hp').trans (atomic_yield_bind.trans ?_))
      refine atomic_get_bind.trans ?_
      rw [hdel]
      rfl
    rw [hfinal]
    exact (h.linkedDown hp).erase hp' hdisabled

variable {bpduPkt : ConfigurationBPDUs}

theorem atomic_rcvConfigBpdu {designated : Option (Message × Times)} {rcvInfo : CmpResult}
    (h : compareBpduInfo designated (.ofBpdu bpduPkt, .ofBpdu bpduPkt) = rcvInfo) :
    (rcvConfigBpdu (s.ref n) designated bpduPkt).atomic s = (.ok rcvInfo,
      if rcvInfo = .superior then
        { s with bridge := s.bridge.store n (.ofBpdu bpduPkt, .ofBpdu bpduPkt) }
      else s) := by
  subst h
  unfold rcvConfigBpdu
  dsimp only
  split
  next => exact congrArg (Except.ok _, ·) Shared.assign_ref
  next => rfl

theorem inv_packetIn (h : s.bridge.Inv) :
    ((packetIn n bpduPkt).finish s).bridge.Inv := by
  rw [finish_eq_atomic, show (packetIn n bpduPkt).atomic s = _ from atomic_get_bind]
  cases hp : s.bridge.ports.lookup n with
  | none => exact h
  | some p =>
    dsimp only
    split
    next hcond =>
      rw [atomic_bind_of_ok (atomic_rcvConfigBpdu rfl)]
      split
      next =>
        rw [atomic_recalculateSpanningTree]
        exact (h.wf.store hp hcond.1).recalculated false
      next => exact h
    next => exact h

theorem inv_stateMachine (h : s.bridge.Inv) : ((stateMachine n).finish s).bridge.Inv := by
  rw [finish_eq_atomic, show (stateMachine n).atomic s = _ from atomic_get_bind]
  cases hp : s.bridge.ports.lookup n with
  | none => exact h
  | some p =>
    rw [bind_some]
    cases hnext : p.nextState with
    | none => exact h
    | some newState =>
      rw [atomic_changeStatus, Shared.assign_ref]
      exact h.forwardDelay hp hnext

end Handler

end BebaCtrl.Stp
