import Mathlib.Data.Nat.Bitwise

/-!
# Fields of bits

`overwrite` puts the low bits of a value at an offset of a register and leaves the others as they
are. A sequence of writes that all put in the bits of one number leaves that number in the places
that some write covers, in whatever order they come (`FieldWrite.testBit_foldl`).
-/

namespace BebaCtrl

/-- The register after `n` bits of `v` were written at `ofs`. -/
def overwrite (reg ofs n v : Nat) : Nat :=
  (reg ^^^ (reg &&& ((2 ^ n - 1) <<< ofs))) ||| ((v % 2 ^ n) <<< ofs)

theorem testBit_overwrite (reg ofs n v i : Nat) :
    (overwrite reg ofs n v).testBit i =
      if ofs ≤ i ∧ i < ofs + n then v.testBit (i - ofs) else reg.testBit i := by
  simp only [overwrite, Nat.testBit_or, Nat.testBit_xor, Nat.testBit_and, Nat.testBit_shiftLeft,
    Nat.testBit_two_pow_sub_one, Nat.testBit_mod_two_pow]
  split
  · rename_i h
    simp [show ofs ≤ i from h.1, show i - ofs < n by omega]
  · by_cases hofs : ofs ≤ i
    · simp [show ¬i - ofs < n by omega]
    · simp [hofs]

theorem overwrite_self (reg n : Nat) : overwrite reg 0 n reg = reg := by
  apply Nat.eq_of_testBit_eq
  intro i
  rw [testBit_overwrite]
  simp

/-- A write as wide as the register leaves its value alone. -/
theorem overwrite_full {reg v n : Nat} (hreg : reg < 2 ^ n) (hv : v < 2 ^ n) :
    overwrite reg 0 n v = v := by
  apply Nat.eq_of_testBit_eq
  intro i
  rw [testBit_overwrite]
  by_cases hi : i < n
  · simp [hi]
  · have hpow : 2 ^ n ≤ 2 ^ i := Nat.pow_le_pow_right (by decide) (by omega)
    rw [if_neg (by omega), Nat.testBit_lt_two_pow (by omega), Nat.testBit_lt_two_pow (by omega)]

/-- A mask of `n` bits at an offset. -/
theorem and_mask (x ofs n : Nat) :
    x &&& ((2 ^ n - 1) <<< ofs) = x / 2 ^ ofs % 2 ^ n * 2 ^ ofs := by
  rw [← Nat.shiftRight_eq_div_pow, ← Nat.and_two_pow_sub_one_eq_mod, ← Nat.shiftLeft_eq]
  apply Nat.eq_of_testBit_eq
  intro i
  by_cases h : ofs ≤ i
  · simp [h, Bool.and_comm]
  · simp [h]

/-- A write of a field: its offset, its width and the value. -/
structure FieldWrite where
  ofs : Nat
  width : Nat
  value : Nat
  deriving DecidableEq, Repr

namespace FieldWrite

def Covers (w : FieldWrite) (i : Nat) : Prop := w.ofs ≤ i ∧ i < w.ofs + w.width

instance (w : FieldWrite) (i : Nat) : Decidable (w.Covers i) := inferInstanceAs (Decidable (_ ∧ _))

def apply (reg : Nat) (w : FieldWrite) : Nat := overwrite reg w.ofs w.width w.value

/-- The value has the bits that `target` has in the place of the field. -/
def Agrees (target : Nat) (w : FieldWrite) : Prop :=
  ∀ i, w.Covers i → w.value.testBit (i - w.ofs) = target.testBit i

theorem testBit_foldl {target : Nat} {ws : List FieldWrite} (h : ∀ w ∈ ws, w.Agrees target)
    (reg i : Nat) :
    (ws.foldl apply reg).testBit i =
      if ∃ w ∈ ws, w.Covers i then target.testBit i else reg.testBit i := by
  induction ws generalizing reg with
  | nil => simp
  | cons w ws ih =>
    have htail := ih (fun w hw => h w (List.mem_cons_of_mem _ hw)) (apply reg w)
    rw [List.foldl_cons, htail, apply, testBit_overwrite]
    by_cases hw : w.Covers i
    · have hvalue := h w (List.mem_cons_self ..) i hw
      rw [if_pos (show ∃ w' ∈ w :: ws, w'.Covers i from ⟨w, List.mem_cons_self .., hw⟩)]
      unfold Covers at hw
      simp [hw, hvalue]
    · have hiff : (∃ w' ∈ w :: ws, w'.Covers i) ↔ ∃ w' ∈ ws, w'.Covers i := by
        simp [hw]
      unfold Covers at hw
      simp only [hiff, if_neg hw]

end FieldWrite

end BebaCtrl
