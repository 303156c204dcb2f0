import BebaCtrl.Lib.Python
import Mathlib.Data.List.Induction
import Mathlib.Data.Nat.Bitwise

/-!
# Texts of binary digits

Python lists of characters that are written at computed indices and read as a number in base two. An
index may be negative and then counts from the end. Places are counted from the right, from zero:
the place of a digit is the bit it stands for.

`Spells n xs f` says which digit stands at each place. A loop over a range keeps an invariant of its
counter (`foldlM_range'_of_step`); the number is read off at the end (`Spells.intBase2`).
-/

namespace BebaCtrl

open List

/-- The position an index of a list of length `n` stands for. -/
def pyIndex (n : Nat) (i : Int) : PyResult Nat :=
  if 0 ≤ i ∧ i < n then .ok i.toNat
  else if i < 0 ∧ 0 ≤ i + n then .ok (i + n).toNat
  else .error .indexError

/-- `xs[i]` -/
def getItem {α : Type} (xs : List α) (i : Int) : PyResult α := do
  let k ← pyIndex xs.length i
  match xs[k]? with
  | some a => .ok a
  | none => .error .indexError

/-- `xs[i] = a` -/
def setItem {α : Type} (xs : List α) (i : Int) (a : α) : PyResult (List α) := do
  let k ← pyIndex xs.length i
  return xs.set k a

/-- A loop over `range(a, a + n)` that always goes on, with an invariant of the number of rounds. -/
theorem foldlM_range'_of_step {σ : Type} {f : σ → Nat → PyResult σ} {P : Nat → σ → Prop} {a n : Nat}
    (hstep : ∀ j s, j < n → P j s → ∃ t, f s (a + j) = .ok t ∧ P (j + 1) t) {s : σ} (h : P 0 s) :
    ∃ t, (range' a n).foldlM f s = .ok t ∧ P n t := by
  induction n with
  | zero => exact ⟨s, rfl, h⟩
  | succ n ih =>
    obtain ⟨t, ht, hP⟩ := ih fun j s hj => hstep j s (by omega)
    obtain ⟨u, hu, hP⟩ := hstep n t (by omega) hP
    refine ⟨u, ?_, hP⟩
    rw [range'_concat, foldlM_append, ht, Nat.one_mul]
    change f t (a + n) >>= pure = _
    rw [hu]
    rfl

/-! ## Digits and their places -/

def bitChar (b : Bool) : Char := if b then '1' else '0'

@[simp] theorem bitChar_eq_one {b : Bool} : bitChar b = '1' ↔ b = true := by
  cases b <;> decide

theorem bitChar_mem (b : Bool) : bitChar b = '0' ∨ bitChar b = '1' := by
  cases b <;> decide

/-- The digit at a place; left of the text there are zeros. -/
def digitAt (xs : List Char) (b : Nat) : Char := xs.reverse.getD b '0'

theorem digitAt_concat_zero (xs : List Char) (c : Char) : digitAt (xs ++ [c]) 0 = c := by
  simp [digitAt]

theorem digitAt_concat_succ (xs : List Char) (c : Char) (b : Nat) :
    digitAt (xs ++ [c]) (b + 1) = digitAt xs b := by
  simp [digitAt]

theorem getElem?_of_place {xs : List Char} {b : Nat} (h : b < xs.length) :
    xs[xs.length - 1 - b]? = some (digitAt xs b) := by
  rw [digitAt, getD_eq_getElem?_getD, getElem?_reverse h, getElem?_eq_getElem (by omega)]
  rfl

theorem digitAt_set {xs : List Char} {i b : Nat} (hi : i < xs.length) (hb : b < xs.length)
    (c : Char) :
    digitAt (xs.set (xs.length - 1 - i) c) b = if b = i then c else digitAt xs b := by
  have hlen : (xs.set (xs.length - 1 - i) c).length = xs.length := length_set
  have hset := getElem?_of_place (show b < (xs.set (xs.length - 1 - i) c).length by omega)
  have hold := getElem?_of_place hb
  rw [hlen, getElem?_set] at hset
  split
  · rename_i heq
    subst heq
    rw [if_pos rfl, if_pos (by omega)] at hset
    exact (Option.some.inj hset).symm
  · rw [if_neg (by omega), hold] at hset
    exact (Option.some.inj hset).symm

/-- `bin(n)` without its mark: the digit at a place is the bit. -/
theorem digitAt_toDigits (n b : Nat) : digitAt (Nat.toDigits 2 n) b = bitChar (n.testBit b) := by
  induction b generalizing n with
  | zero =>
    rcases Nat.lt_or_ge n 2 with hn | hn
    · rcases (show n = 0 ∨ n = 1 by omega) with rfl | rfl <;> rfl
    · rw [Nat.toDigits_of_base_le (by decide) hn, digitAt_concat_zero, Nat.testBit_zero]
      rcases Nat.mod_two_eq_zero_or_one n with h | h <;> rw [h] <;> rfl
  | succ b ih =>
    rcases Nat.lt_or_ge n 2 with hn | hn
    · rw [Nat.toDigits_of_lt_base hn, Nat.testBit_add_one, Nat.div_eq_of_lt hn, Nat.zero_testBit]
      rfl
    · rw [Nat.toDigits_of_base_le (by decide) hn, digitAt_concat_succ, ih, Nat.testBit_add_one]

/-! ## Reading a number -/

/-- The number a text of binary digits spells. -/
def binVal (xs : List Char) : Nat := xs.foldl (fun n c => 2 * n + (c = '1' : Bool).toNat) 0

theorem binVal_concat (xs : List Char) (c : Char) :
    binVal (xs ++ [c]) = 2 * binVal xs + (c = '1' : Bool).toNat := by
  simp [binVal]

theorem testBit_binVal (xs : List Char) (b : Nat) :
    (binVal xs).testBit b = decide (digitAt xs b = '1') := by
  induction xs using reverseRecOn generalizing b with
  | nil =>
    rw [show binVal [] = 0 from rfl, Nat.zero_testBit]
    rfl
  | append_singleton xs c ih =>
    rw [binVal_concat]
    cases b with
    | zero =>
      rw [digitAt_concat_zero, Nat.testBit_zero]
      by_cases hc : c = '1' <;> simp [hc]
    | succ b =>
      rw [digitAt_concat_succ, ← ih, Nat.testBit_add_one]
      have hdigit := Bool.toNat_lt (decide (c = '1'))
      congr 1
      omega

/-- `int(text, 2)`. `other` is what it gives for a text with other characters: a sign, blanks and a
mark are accepted at some places, what remains is a `ValueError`. -/
def intBase2 (other : List Char → PyResult Int) (text : List Char) : PyResult Int :=
  if text ≠ [] ∧ text.all (fun c => c = '0' ∨ c = '1') then .ok (binVal text) else other text

/-- A text of length `n` with the digit `f b` at the place `b`. -/
structure Spells (n : Nat) (xs : List Char) (f : Nat → Char) : Prop where
  length_eq : xs.length = n
  digit_eq : ∀ b, b < n → digitAt xs b = f b

namespace Spells

variable {n : Nat} {xs : List Char} {f : Nat → Char}

theorem replicate (n : Nat) (c : Char) : Spells n (List.replicate n c) fun _ => c := by
  refine ⟨length_replicate, fun b hb => ?_⟩
  simp [digitAt, hb]

theorem congr {g : Nat → Char} (h : Spells n xs f) (hfg : ∀ b, b < n → f b = g b) :
    Spells n xs g :=
  ⟨h.length_eq, fun b hb => (h.digit_eq b hb).trans (hfg b hb)⟩

/-- Indices right of the last place wrap around to the places at the right end. -/
theorem pyIndex_eq {i : Nat} (hi : i < 2 * n) :
    pyIndex n ((n : Int) - 1 - i) = .ok (n - 1 - i % n) := by
  rcases Nat.lt_or_ge i n with h | h
  · rw [pyIndex, if_pos (by omega), Nat.mod_eq_of_lt h]
    congr 1
    omega
  · have hmod : i % n = i - n := by
      rw [Nat.mod_eq_sub_mod h, Nat.mod_eq_of_lt (by omega)]
    rw [pyIndex, if_neg (by omega), if_pos (by omega), hmod]
    congr 1
    omega

section

variable (h : Spells n xs f)
include h

theorem setItem {i : Nat} (hi : i < 2 * n) (c : Char) :
    ∃ ys, BebaCtrl.setItem xs ((n : Int) - 1 - i) c = .ok ys ∧
      Spells n ys fun b => if b = i % n then c else f b := by
  have hmod : i % n < n := Nat.mod_lt i (by omega)
  obtain ⟨rfl, hdigit⟩ := h
  refine ⟨xs.set (xs.length - 1 - i % xs.length) c, ?_, length_set, fun b hb => ?_⟩
  · rw [BebaCtrl.setItem, pyIndex_eq hi]
    rfl
  · rw [digitAt_set hmod hb, hdigit b hb]

theorem getItem {i : Nat} (hi : i < n) : BebaCtrl.getItem xs ((n : Int) - 1 - i) = .ok (f i) := by
  obtain ⟨rfl, hdigit⟩ := h
  rw [BebaCtrl.getItem, pyIndex_eq (by omega), Nat.mod_eq_of_lt hi]
  simp [getElem?_of_place hi, hdigit i hi]

theorem eq_of_mem {c : Char} (hc : c ∈ xs) : ∃ b, b < n ∧ c = f b := by
  obtain ⟨k, hk, rfl⟩ := mem_iff_getElem.1 hc
  have hn := h.length_eq
  have hplace : xs.length - 1 - k < xs.length := by omega
  have hget := getElem?_of_place hplace
  rw [show xs.length - 1 - (xs.length - 1 - k) = k by omega, getElem?_eq_getElem hk] at hget
  exact ⟨_, hn ▸ hplace, (Option.some.inj hget).trans (h.digit_eq _ (hn ▸ hplace))⟩

theorem testBit_binVal (b : Nat) : (binVal xs).testBit b = decide (b < n ∧ f b = '1') := by
  rw [BebaCtrl.testBit_binVal]
  by_cases hb : b < n
  · simp [hb, h.digit_eq b hb]
  · have hout : digitAt xs b = '0' := by
      rw [digitAt, getD_eq_default]
      rw [length_reverse, h.length_eq]
      omega
    simp [hb, hout]

/-- A text of binary digits is read as the number with these bits. -/
theorem intBase2 {other : List Char → PyResult Int} (hn : 0 < n)
    (hf : ∀ b, b < n → f b = '0' ∨ f b = '1') : BebaCtrl.intBase2 other xs = .ok (binVal xs) := by
  refine if_pos ⟨?_, ?_⟩
  · rintro rfl
    have := h.length_eq
    simp at this
    omega
  · rw [all_eq_true]
    intro c hc
    obtain ⟨b, hb, rfl⟩ := h.eq_of_mem hc
    exact decide_eq_true (hf b hb)

end

end Spells

end BebaCtrl
