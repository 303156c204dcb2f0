import BebaCtrl.Stp.RoleInvariant

/-!
# Later messages of a port

What a port does with a configuration message when it has stored an earlier one: the new message
takes its place exactly when it is not worse (`stores_iff_key_le`), also where both are from the
same port. The branch of the comparison for that case is reached only after all values were equal.
-/

namespace BebaCtrl.Stp

open Struct Handler Bridge

variable {sh : Shared} {n : ℕ} {q : Port}

/-- The port has stored the message in the packet, and reports that it is superior. -/
def Stores (sh : Shared) (n : ℕ) (q : Port) (bpdu : ConfigurationBPDUs) : Prop :=
  ∃ sh', (rcvConfigBpdu (sh.ref n) q.designated bpdu).atomic sh = (.ok .superior, sh') ∧
    ∃ q', sh'.bridge.ports.lookup n = some q' ∧ q'.designated = some (.ofBpdu bpdu, .ofBpdu bpdu)

theorem stores_iff {bpdu : ConfigurationBPDUs} (hq : sh.bridge.ports.lookup n = some q) :
    Stores sh n q bpdu ↔ compareBpduInfo q.designated (.ofBpdu bpdu, .ofBpdu bpdu) = .superior := by
  unfold Stores
  rw [atomic_rcvConfigBpdu rfl]
  constructor
  · rintro ⟨sh', h, -⟩
    exact Except.ok.inj (Prod.ext_iff.1 h).1
  · intro h
    rw [h, if_pos rfl]
    refine ⟨_, rfl, { q with designated := some (.ofBpdu bpdu, .ofBpdu bpdu) }, ?_, rfl⟩
    rw [store, lookup_adjust, if_pos rfl, hq]
    rfl

theorem compareRootPath_eq_repeated {c c' b b' p p' : ℤ} :
    compareRootPath c c' b b' p p' = .repeated ↔ pathKey c b p = pathKey c' b' p' := by
  simp only [pathKey, toLex_inj, Prod.mk.injEq, compareRootPath, cmpValue]
  grind

/-- When a port that has stored a message takes another one for superior. -/
theorem compareBpduInfo_eq_superior {stored msg : Message × Times} :
    compareBpduInfo (some stored) msg = .superior ↔
      msg.1.key < stored.1.key ∨ msg.1.key = stored.1.key ∧ msg.2 ≠ stored.2 := by
  simp only [Message.key, Prod.Lex.toLex_lt_toLex, toLex_inj, Prod.mk.injEq,
    ← compareRootPath_eq_superior, ← compareRootPath_eq_repeated, compareBpduInfo, cmpValue]
  grind

/-- A message that differs from the stored one is stored unless it is worse, also where it is a
later message of the same port. -/
theorem stores_iff_key_le {stored : Message × Times} {bpdu : ConfigurationBPDUs}
    (hq : sh.bridge.ports.lookup n = some q) (hstored : q.designated = some stored)
    (hdiffers : (Message.ofBpdu bpdu).key ≠ stored.1.key ∨ Times.ofBpdu bpdu ≠ stored.2) :
    Stores sh n q bpdu ↔ (Message.ofBpdu bpdu).key ≤ stored.1.key := by
  rw [stores_iff hq, hstored, compareBpduInfo_eq_superior, le_iff_lt_or_eq]
  constructor
  · rintro (hlt | ⟨heq, -⟩)
    · exact .inl hlt
    · exact .inr heq
  · rintro (hlt | heq)
    · exact .inl hlt
    · exact .inr ⟨heq, hdiffers.resolve_left (not_not.2 heq)⟩

def neighbourBpdu : ConfigurationBPDUs :=
  ⟨0, 4096, 0, 1, 10, 32768, 0, 2, 128, 1, 1, 20, 2, 15⟩

def listener (designated : Option (Message × Times)) : Port :=
  ⟨128, 10, 3, true, .listen, .designated, designated, ⟨⟨32768, 0, 3⟩, 0, none⟩, ⟨0, 20, 2, 15⟩⟩

def listening (designated : Option (Message × Times)) : Shared where
  bridge := ⟨⟨32768, 0, 3⟩, ⟨0, 20, 2, 15⟩, ⟨⟨32768, 0, 3⟩, 0, none⟩, ⟨0, 20, 2, 15⟩,
    (∅ : Dict ℕ Port).insert 1 (listener designated)⟩
  generation := fun _ => 0

theorem stores_lowerCost :
    Stores (listening (some (.ofBpdu neighbourBpdu, .ofBpdu neighbourBpdu))) 1
      (listener (some (.ofBpdu neighbourBpdu, .ofBpdu neighbourBpdu)))
      { neighbourBpdu with rootPathCost := 5 } :=
  (stores_iff_key_le rfl rfl (.inl (by decide))).2 (by decide)

/-- The neighbour has lost its better path, but the earlier message stays. -/
theorem not_stores_higherCost :
    let bpdu := { neighbourBpdu with rootPathCost := 20 }
    let stored : Message × Times := (.ofBpdu neighbourBpdu, .ofBpdu neighbourBpdu)
    bpdu.bridgeMacAddress = stored.1.designatedBridgeId.macAddr ∧
      bpdu.portNumber = stored.1.designatedPortId.portNo ∧
      ¬Stores (listening (some stored)) 1 (listener (some stored)) bpdu := by
  intro bpdu stored
  refine ⟨rfl, rfl, fun h => ?_⟩
  have hinfo := (stores_iff rfl).1 h
  revert hinfo
  decide

end BebaCtrl.Stp
