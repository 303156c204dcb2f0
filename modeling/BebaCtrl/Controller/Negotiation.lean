import BebaCtrl.Controller.OfpHandler

/-!
# Version negotiation

The Hello of the controller carries no version bitmap, so the version that a switch expects is the
largest of its own versions that is not above the one the controller sent, or the smaller of the two
version fields when the switch sends no bitmap either. `hello_handler` compares that version with
the versions it can use and gives up unless they agree.
-/

namespace BebaCtrl

theorem isGreatest_maxVersion {vs : Finset Nat} (h : vs.Nonempty) :
    IsGreatest (vs : Set Nat) (maxVersion vs) := by
  obtain ⟨v, hmax⟩ := Finset.max_of_nonempty h
  have hv : maxVersion vs = v := by rw [maxVersion, hmax]; rfl
  rw [hv]
  exact ⟨Finset.mem_of_max hmax, fun w hw => Finset.le_max_of_eq hw hmax⟩

namespace Datapath

variable {dp : Datapath} {version v : Nat} {elements : List (List Nat)}

/-- The handler goes on to the configuration with version `v`. -/
def Proceeds (dp : Datapath) (version : Nat) (elements : List (List Nat)) (v : Nat) : Prop :=
  dp.helloHandler version elements =
    (send { dp with version := v, state := .config } .featuresRequest, none)

/-- The handler sends an error and leaves the rest of the datapath alone. -/
def Refuses (dp : Datapath) (version : Nat) (elements : List (List Nat)) : Prop :=
  ∃ e, dp.helloHandler version elements = (dp.send (.helloFailed e), none)

theorem proceeds_iff : Proceeds dp version elements v ↔ dp.negotiate version elements = .ok v := by
  refine ⟨fun h => ?_, helloHandler_ok⟩
  cases hn : dp.negotiate version elements with
  | error e =>
    rw [Proceeds, helloHandler, hn] at h
    simp [send] at h
  | ok w =>
    rw [Proceeds, helloHandler_ok hn] at h
    simp only [send, Prod.mk.injEq, Datapath.mk.injEq, and_true, true_and] at h
    rw [h]

theorem refuses_of_not_proceeds (h : ∀ v, ¬Proceeds dp version elements v) :
    Refuses dp version elements := by
  cases hn : dp.negotiate version elements with
  | error e => exact ⟨e, by rw [helloHandler, hn]⟩
  | ok v => exact absurd (proceeds_iff.2 hn) (h v)

/-- With a bitmap the largest version of the switch up to that of the controller is used. -/
theorem negotiate_bitmap (helements : elements ≠ []) :
    dp.negotiate version elements = .ok v ↔
      IsGreatest {w | w ∈ elements.flatten ∧ w ≤ maxVersion dp.supported.versions} v ∧
        v ∈ dp.supported.versions := by
  let usable := elements.flatten.toFinset ∩ dp.supported.versions
  let negotiated := elements.flatten.toFinset.filter (· ≤ maxVersion dp.supported.versions)
  have hmax := isGreatest_maxVersion dp.supported.nonempty
  have hsub : usable ⊆ negotiated := by
    intro w hw
    obtain ⟨hswitch, hsupported⟩ := Finset.mem_inter.1 hw
    exact Finset.mem_filter.2 ⟨hswitch, hmax.2 hsupported⟩
  have hset : {w | w ∈ elements.flatten ∧ w ≤ maxVersion dp.supported.versions} =
      (negotiated : Set Nat) := by
    simp [negotiated]
  have hnegotiate : dp.negotiate version elements = .ok v ↔
      usable.Nonempty ∧ maxVersion negotiated = maxVersion usable ∧ maxVersion usable = v := by
    unfold negotiate
    simp only [if_pos helements]
    change (if negotiated.Nonempty ∧ ¬usable.Nonempty then _ else
      if negotiated.Nonempty ∧ usable.Nonempty ∧ maxVersion negotiated ≠ maxVersion usable then _
      else if usable.Nonempty then Except.ok (maxVersion usable) else _) = _ ↔ _
    by_cases husable : usable.Nonempty
    · have hnegotiated := husable.mono hsub
      by_cases heq : maxVersion negotiated = maxVersion usable
      · simp [husable, heq]
      · simp [husable, hnegotiated, heq]
    · by_cases hnegotiated : negotiated.Nonempty
      · simp [husable, hnegotiated]
      · simp [husable, hnegotiated]
  rw [hnegotiate, hset]
  constructor
  · rintro ⟨husable, heq, rfl⟩
    have hmem := Finset.mem_inter.1 (maxVersion_mem husable)
    rw [← heq]
    exact ⟨isGreatest_maxVersion (husable.mono hsub), heq ▸ hmem.2⟩
  · rintro ⟨hgreatest, hsupported⟩
    have hmem : v ∈ usable :=
      Finset.mem_inter.2 ⟨(Finset.mem_filter.1 hgreatest.1).1, hsupported⟩
    have husable : IsGreatest (usable : Set Nat) v := ⟨hmem, fun w hw => hgreatest.2 (hsub hw)⟩
    have hv := (isGreatest_maxVersion ⟨v, hmem⟩).unique husable
    have hv' := (isGreatest_maxVersion ⟨v, hgreatest.1⟩).unique hgreatest
    exact ⟨⟨v, hmem⟩, hv'.trans hv.symm, hv⟩

/-- Without a bitmap the smaller of the two versions is used. -/
theorem negotiate_fields (hversion : dp.version = maxVersion dp.supported.versions) :
    dp.negotiate version [] = .ok v ↔
      v = min version (maxVersion dp.supported.versions) ∧ v ∈ dp.supported.versions := by
  let usable := dp.supported.versions.filter (· ≤ version)
  have hmax := isGreatest_maxVersion dp.supported.nonempty
  have hnegotiate : dp.negotiate version [] = .ok v ↔
      usable.Nonempty ∧ maxVersion usable = min version dp.version ∧ maxVersion usable = v := by
    change (if usable.Nonempty ∧ maxVersion usable ≠ min version dp.version then _ else
      if usable.Nonempty then Except.ok (maxVersion usable) else _) = _ ↔ _
    by_cases husable : usable.Nonempty
    · by_cases heq : maxVersion usable = min version dp.version
      · simp [husable, heq]
      · simp [husable, heq]
    · simp [husable]
  rw [hnegotiate, hversion]
  constructor
  · rintro ⟨husable, heq, rfl⟩
    exact ⟨heq, (Finset.mem_filter.1 (maxVersion_mem husable)).1⟩
  · rintro ⟨rfl, hsupported⟩
    have hmem : min version (maxVersion dp.supported.versions) ∈ usable :=
      Finset.mem_filter.2 ⟨hsupported, min_le_left _ _⟩
    have husable :
        IsGreatest (usable : Set Nat) (min version (maxVersion dp.supported.versions)) := by
      refine ⟨hmem, fun w hw => ?_⟩
      obtain ⟨hw, hle⟩ := Finset.mem_filter.1 hw
      exact le_min hle (hmax.2 hw)
    have hv := (isGreatest_maxVersion ⟨_, hmem⟩).unique husable
    exact ⟨⟨_, hmem⟩, hv, hv⟩

/-- What becomes of a Hello while the datapath has the version it starts with: with a bitmap the
handler proceeds with the largest version of the switch that is not above that of the controller, if
it is supported; without one with the smaller of the two versions, if it is supported; otherwise it
refuses. -/
theorem helloHandler_spec (dp : Datapath) (version : Nat) (elements : List (List Nat))
    (hversion : dp.version = maxVersion dp.supported.versions) :
    (∀ v, Proceeds dp version elements v ↔
      (if elements ≠ [] then
        IsGreatest {w | w ∈ elements.flatten ∧ w ≤ maxVersion dp.supported.versions} v
      else v = min version (maxVersion dp.supported.versions)) ∧ v ∈ dp.supported.versions) ∧
    ((∀ v, ¬Proceeds dp version elements v) → Refuses dp version elements) := by
  refine ⟨fun v => ?_, refuses_of_not_proceeds⟩
  rw [proceeds_iff]
  split
  · rename_i helements
    exact negotiate_bitmap helements
  · rename_i helements
    rw [Decidable.not_not.1 helements]
    exact negotiate_fields hversion

/-- A controller for OpenFlow 1.0 and 1.3. -/
def openFlow10And13 : SupportedVersions := ⟨{1, 4}, ⟨1, by decide⟩, by decide⟩

/-- A switch of OpenFlow 1.5 that sends no bitmap is driven with OpenFlow 1.3. -/
theorem helloHandler_spec_openFlow15 :
    (fresh openFlow10And13).version = maxVersion (fresh openFlow10And13).supported.versions ∧
      Proceeds (fresh openFlow10And13) 6 [] 4 := by
  refine ⟨rfl, ((helloHandler_spec (fresh openFlow10And13) 6 [] rfl).1 4).2 ⟨?_, by decide⟩⟩
  rw [if_neg (by simp)]
  decide

end Datapath

end BebaCtrl
