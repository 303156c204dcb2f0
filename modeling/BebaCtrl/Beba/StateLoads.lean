import BebaCtrl.Beba.OvsDatapath
import BebaCtrl.Lib.BitFields

/-!
# What the loads of a state transition leave in the register

`generate_NXFlowSpecLoad` cuts the mask of a state into its runs of ones, with positions counted
from the left of the binary digits, and makes one load for each of them, with offsets counted from
the right. Together the loads bring the bits of the state under the mask into the register and leave
the others alone.
-/

namespace BebaCtrl.OVSDatapath

open List Function

/-! ## Runs of ones -/

/-- The position is in one of the runs. -/
def InRuns (runs : List (Nat × Nat)) (p : Nat) : Prop := ∃ run ∈ runs, run.1 ≤ p ∧ p ≤ run.2

variable {run : Nat × Nat} {p : Nat}

theorem inRuns_cons {runs : List (Nat × Nat)} :
    InRuns (run :: runs) p ↔ (run.1 ≤ p ∧ p ≤ run.2) ∨ InRuns runs p := by
  simp [InRuns]

/-- The run that is open at `pos` has begun before. -/
def Begun (start : Option Nat) (pos : Nat) : Prop := ∀ s, start = some s → s < pos

variable {bits : List Bool} {pos : Nat}

theorem digit_cons_iff {b : Bool} :
    (pos ≤ p ∧ (b :: bits)[p - pos]? = some true) ↔
      (p = pos ∧ b = true) ∨ pos + 1 ≤ p ∧ bits[p - (pos + 1)]? = some true := by
  rcases Nat.lt_trichotomy p pos with hlt | rfl | hgt
  · omega
  · simp
  · grind

variable {start : Option Nat}

/-- The runs have the digits that are ones, and the open run. -/
theorem inRuns_onesRuns (h : Begun start pos) (p : Nat) :
    InRuns (onesRuns bits pos start) p ↔
      (∃ s, start = some s ∧ s ≤ p ∧ p < pos) ∨ pos ≤ p ∧ bits[p - pos]? = some true := by
  fun_induction onesRuns bits pos start with
  | case1 pos => simp [InRuns]
  | case2 pos start =>
    have hlt := h start rfl
    rw [inRuns_cons]
    simp only [InRuns, not_mem_nil, false_and, exists_false, or_false,
      Option.some.injEq, exists_eq_left', getElem?_nil, reduceCtorEq, and_false]
    omega
  | case3 bits pos ih =>
    have hih := ih (by unfold Begun; grind)
    grind
  | case4 bits pos start ih =>
    have hlt := h start rfl
    have hih := ih (by unfold Begun; grind)
    grind
  | case5 bits pos ih =>
    have hih := ih (by unfold Begun; grind)
    grind
  | case6 bits pos start ih =>
    have hlt := h start rfl
    have hih := ih (by unfold Begun; grind)
    rw [inRuns_cons, hih, digit_cons_iff]
    grind

/-- A run is not empty and ends with a digit. -/
theorem bounds_of_mem_onesRuns (h : Begun start pos) (hrun : run ∈ onesRuns bits pos start) :
    run.1 ≤ run.2 ∧ run.2 < pos + bits.length := by
  fun_induction onesRuns bits pos start with
  | case1 pos => simp at hrun
  | case2 pos start =>
    have hlt := h start rfl
    rw [mem_singleton] at hrun
    subst hrun
    omega
  | case3 bits pos ih | case5 bits pos ih =>
    have hih := ih (by unfold Begun; grind) hrun
    rw [length_cons]
    omega
  | case4 bits pos start ih =>
    have hlt := h start rfl
    have hih := ih (by unfold Begun; grind) hrun
    rw [length_cons]
    omega
  | case6 bits pos start ih =>
    have hlt := h start rfl
    rcases mem_cons.1 hrun with rfl | hrun
    · omega
    · have hih := ih (by unfold Begun; grind) hrun
      rw [length_cons]
      omega

/-! ## Binary digits -/

theorem getElem?_bits32 (v p : Nat) :
    (bits32 v)[p]? = if p < 32 then some (v.testBit (31 - p)) else none := by
  simp only [bits32, getElem?_map]
  split
  · rename_i h
    simp [getElem?_range h]
  · simp [getElem?_eq_none (show (List.range 32).length ≤ p by simp; omega)]

theorem ofBits_concat (bits : List Bool) (b : Bool) :
    ofBits (bits ++ [b]) = 2 * ofBits bits + b.toNat := by
  simp [ofBits]

theorem ofBits_lt (bits : List Bool) : ofBits bits < 2 ^ bits.length := by
  induction bits using reverseRecOn with
  | nil => simp [ofBits]
  | append_singleton bits b ih =>
    have hb := b.toNat_le
    rw [ofBits_concat, length_append, length_singleton, Nat.pow_succ]
    omega

/-- The last digit is the lowest bit. -/
theorem testBit_ofBits (bits : List Bool) {j : Nat} (hj : j < bits.length) :
    (ofBits bits).testBit j = bits[bits.length - 1 - j] := by
  induction bits using reverseRecOn generalizing j with
  | nil => simp at hj
  | append_singleton bits b ih =>
    have hb := b.toNat_le
    rw [length_append, length_singleton] at hj
    cases j with
    | zero =>
      rw [ofBits_concat, Nat.testBit_zero]
      cases b <;> simp
    | succ j =>
      have hdiv : (2 * ofBits bits + b.toNat) / 2 = ofBits bits := by omega
      rw [ofBits_concat, Nat.testBit_succ, hdiv, ih (by omega)]
      simp only [length_append, length_singleton]
      rw [getElem_append_left (by omega)]
      congr 1
      omega

variable {i : Nat}

/-- The number in the digits of a run. -/
theorem testBit_slice (v : Nat) {s e : Nat} (hse : s ≤ e) (he : e < 32) (hi : 31 - e ≤ i)
    (hi' : i ≤ 31 - s) :
    (ofBits (((bits32 v).drop s).take (e + 1 - s))).testBit (i - (31 - e)) = v.testBit i := by
  have hlen : (((bits32 v).drop s).take (e + 1 - s)).length = e + 1 - s := by
    simp [bits32]
    omega
  rw [testBit_ofBits _ (by omega)]
  apply Option.some.inj
  rw [← getElem?_eq_getElem, getElem?_take_of_lt (by omega), getElem?_drop,
    getElem?_bits32, if_pos (by omega), hlen]
  congr 2
  omega

/-! ## The loads -/

/-- A load of the learn action, on the registers: it overwrites the bits of its destination with its
immediate, or with bits of another register. -/
def applyLoad (regs : OxmName → Nat) (spec : NXFlowSpec) : OxmName → Nat :=
  let value := match spec.src with
    | .immediate value => value
    | .subfield name ofs => regs name >>> ofs
  match spec.dst with
  | .load name ofs => Function.update regs name (overwrite (regs name) ofs spec.nBits value)
  | _ => regs

/-- The write that the load of a run makes. -/
def runWrite (v : Nat) (run : Nat × Nat) : FieldWrite where
  ofs := 31 - run.2
  width := run.2 - run.1 + 1
  value := ofBits (((bits32 v).drop run.1).take (run.2 + 1 - run.1))

theorem foldl_applyLoad_runs (v : Nat) (runs : List (Nat × Nat)) (regs : OxmName → Nat) :
    (runs.map fun (s, e) => (⟨.immediate (ofBits (((bits32 v).drop s).take (e + 1 - s))),
      .load reg0 (31 - e), e - s + 1⟩ : NXFlowSpec)).foldl applyLoad regs =
      Function.update regs reg0 ((runs.map (runWrite v)).foldl FieldWrite.apply (regs reg0)) := by
  induction runs generalizing regs with
  | nil => simp
  | cons run runs ih =>
    rw [map_cons, foldl_cons, ih, map_cons, foldl_cons]
    simp [applyLoad, FieldWrite.apply, runWrite]

theorem agrees_runWrite (v : Nat) (hle : run.1 ≤ run.2) (hlt : run.2 < 32) :
    (runWrite v run).Agrees v := by
  intro i hi
  obtain ⟨hofs, hend⟩ : 31 - run.2 ≤ i ∧ i < 31 - run.2 + (run.2 - run.1 + 1) := hi
  exact testBit_slice v hle hlt hofs (by omega)

/-- The runs of a mask are written exactly where the mask has ones. -/
theorem covers_runWrite_iff (v mask : Nat) (hi : i < 32) :
    (∃ w ∈ (onesRuns (bits32 mask) 0 none).map (runWrite v), w.Covers i) ↔
      mask.testBit i = true := by
  have hbegun : Begun none 0 := by simp [Begun]
  have hruns := @inRuns_onesRuns (bits32 mask) 0 none hbegun (31 - i)
  have hdigit : (bits32 mask)[31 - i]? = some (mask.testBit i) := by
    rw [getElem?_bits32, if_pos (by omega), show 31 - (31 - i) = i by omega]
  simp only [reduceCtorEq, false_and, exists_false, false_or, Nat.zero_le, true_and, Nat.sub_zero,
    hdigit, Option.some.injEq] at hruns
  rw [← hruns]
  simp only [mem_map, exists_exists_and_eq_and, InRuns]
  refine exists_congr fun run => and_congr_right fun hmem => ?_
  have hbounds := bounds_of_mem_onesRuns hbegun hmem
  simp only [bits32, length_map, length_range] at hbounds
  simp only [FieldWrite.Covers, runWrite]
  omega

/-- The writes of the runs of a mask leave the bits of the state under the mask. -/
theorem foldl_runWrite (old state mask : BitVec 32) :
    ((onesRuns (bits32 mask.toNat) 0 none).map (runWrite (state.toNat &&& mask.toNat))).foldl
        FieldWrite.apply old.toNat =
      ((old &&& ~~~mask) ||| (state &&& mask)).toNat := by
  have hagrees : ∀ w ∈ (onesRuns (bits32 mask.toNat) 0 none).map
      (runWrite (state.toNat &&& mask.toNat)), w.Agrees (state.toNat &&& mask.toNat) := by
    intro w hw
    obtain ⟨run, hrun, rfl⟩ := mem_map.1 hw
    have hbounds := bounds_of_mem_onesRuns (by simp [Begun]) hrun
    simp only [bits32, length_map, length_range] at hbounds
    exact agrees_runWrite _ hbounds.1 (by omega)
  apply Nat.eq_of_testBit_eq
  intro i
  rw [FieldWrite.testBit_foldl hagrees]
  by_cases hi : i < 32
  · simp only [covers_runWrite_iff _ _ hi, BitVec.testBit_toNat, Nat.testBit_and,
      BitVec.getLsbD_or, BitVec.getLsbD_and, BitVec.getLsbD_not, hi, decide_true, Bool.true_and]
    cases mask.getLsbD i <;> simp
  · have hbits (x : BitVec 32) : x.toNat.testBit i = false := by
      rw [BitVec.testBit_toNat, BitVec.getLsbD_of_ge _ _ (by omega)]
    simp [hbits, ite_self]

/-- Executing the loads leaves the bits of the state under the mask in the register, its other bits
and the other registers as they were, and each immediate fits in the bits of its load. -/
theorem foldl_applyLoad_generateNXFlowSpecLoad (state stateMask old : BitVec 32)
    (regs : OxmName → Nat) :
    (generateNXFlowSpecLoad state.toNat stateMask.toNat).foldl applyLoad
        (Function.update regs reg0 old.toNat) =
      Function.update regs reg0 ((old &&& ~~~stateMask) ||| (state &&& stateMask)).toNat ∧
    ∀ spec ∈ generateNXFlowSpecLoad state.toNat stateMask.toNat, ∀ value,
      spec.src = .immediate value → value < 2 ^ spec.nBits := by
  unfold generateNXFlowSpecLoad
  split
  · rename_i hmask
    have hones : stateMask = BitVec.allOnes 32 := BitVec.eq_of_toNat_eq hmask
    have hmerge : (old &&& ~~~stateMask) ||| (state &&& stateMask) = state := by
      rw [hones, BitVec.not_allOnes, BitVec.and_zero, BitVec.zero_or, BitVec.and_allOnes]
    rw [hmerge]
    constructor
    · simp [applyLoad, overwrite_full old.isLt state.isLt]
    · intro spec hspec value hvalue
      rw [mem_singleton.1 hspec] at hvalue ⊢
      cases hvalue
      exact state.isLt
  · split
    · rename_i hmask
      have hzero : stateMask = 0#32 := BitVec.eq_of_toNat_eq hmask
      have hmerge : (old &&& ~~~stateMask) ||| (state &&& stateMask) = old := by
        rw [hzero, BitVec.not_zero, BitVec.and_allOnes, BitVec.and_zero, BitVec.or_zero]
      rw [hmerge]
      constructor
      · simp [applyLoad, overwrite_self]
      · intro spec hspec value hvalue
        rw [mem_singleton.1 hspec] at hvalue
        cases hvalue
    · constructor
      · have hself : applyLoad (Function.update regs reg0 old.toNat)
            ⟨.subfield reg0 0, .load reg0 0, 32⟩ = Function.update regs reg0 old.toNat := by
          simp [applyLoad, overwrite_self]
        rw [foldl_cons, hself, foldl_applyLoad_runs, update_idem, update_self, foldl_runWrite]
      · intro spec hspec value hvalue
        rcases mem_cons.1 hspec with rfl | hspec
        · cases hvalue
        · obtain ⟨run, hrun, rfl⟩ := mem_map.1 hspec
          cases hvalue
          have hlt := ofBits_lt (((bits32 (state.toNat &&& stateMask.toNat)).drop run.1).take
            (run.2 + 1 - run.1))
          refine hlt.trans_le (Nat.pow_le_pow_right (by decide) ?_)
          rw [length_take]
          dsimp only
          omega

end BebaCtrl.OVSDatapath
