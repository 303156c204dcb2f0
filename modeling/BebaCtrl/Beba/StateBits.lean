import BebaCtrl.Lib.BinText
import BebaCtrl.Lib.BitFields

/-!
# Values and masks for parts of the state

`masked_global_state_from_str` turns a text of zeros, ones and stars into a value and a mask of the
global state. `substate` divides the 32 bits of the state field into sections, counted from one from
the right, and puts a state into one of them. Both fill two lists of 32 digits, with the index `31 -
i` for the bit `i`, and read them in base two.

The pattern that is to reject other characters in the text only finds the letter `r` in front of one
(`masked_iff`). A section is filled one section too far to the left, and the last one where the
first one should be (`substate_eq`), so that only the undivided field comes out right
(`substate_iff`).
-/

namespace BebaCtrl

open List

/-- Two lists of digits that are filled together. -/
structure MaskedDigits where
  value : List Char
  mask : List Char
  deriving DecidableEq, Repr

/-- `['0']*32` for both. -/
def MaskedDigits.zeros : MaskedDigits := ⟨List.replicate 32 '0', List.replicate 32 '0'⟩

variable (other : List Char → PyResult Int)

/-- `(int(value,2),int(mask,2))` -/
def MaskedDigits.read (d : MaskedDigits) :
    PyResult (Int × Int) := do
  let value ← intBase2 other d.value
  let mask ← intBase2 other d.mask
  return (value, mask)

/-- `re.search('r[^01*]', string)`; the letter is part of the pattern. -/
def reSearch : List Char → Bool
  | c :: d :: rest =>
    (c = 'r' && d ≠ '0' && d ≠ '1' && d ≠ '*') || reSearch (d :: rest)
  | _ => false

/-- One round of the loop of `masked_global_state_from_str`. -/
def globalStateStep (string : List Char) (offset : Nat) (d : MaskedDigits) (i : Nat) :
    PyResult MaskedDigits := do
  let c ← getItem string ((string.length : Int) - 1 + offset - i)
  if c = '*' then return d
  let mask ← setItem d.mask (31 - i) '1'
  let value ← setItem d.value (31 - i) c
  return ⟨value, mask⟩

def maskedGlobalStateFromStr (string : List Char)
    (offset : Int := 0) : PyResult (Int × Int) := do
  if reSearch string ∨ string.length > 32 ∨ string.length < 1 then return (0, 0)
  if offset > 31 ∨ offset < 0 then return (0, 0)
  if string.length + offset > 32 then return (0, 0)
  let d ← (range' offset.toNat string.length).foldlM (globalStateStep string offset.toNat)
    MaskedDigits.zeros
  d.read other

/-- The integers of Python 2; only the first kind is an instance of `int`. -/
inductive PyInteger where
  | int (n : Int)
  | long (n : Int)
  deriving DecidableEq, Repr

namespace PyInteger

def val : PyInteger → Int
  | int n => n
  | long n => n

def isInt : PyInteger → Bool
  | int _ => true
  | long _ => false

end PyInteger

/-- Right-align the digits of the state in the list for the section. -/
def binStateStep (text : List Char) (sectionLen : Nat) (binState : List Char) (i : Nat) :
    PyResult (List Char) := do
  let c ← getItem text ((text.length : Int) - 1 - i)
  setItem binState ((sectionLen : Int) - 1 - i) c

/-- One round of the second loop of `substate`, with its counter. -/
def sectionStep (binState : List Char) (sectionLen : Nat) (s : MaskedDigits × Nat) (i : Nat) :
    PyResult (MaskedDigits × Nat) := do
  let c ← getItem binState ((sectionLen : Int) - s.2)
  let value ← setItem s.1.value (31 - i) c
  let mask ← setItem s.1.mask (31 - i) '1'
  return (⟨value, mask⟩, s.2 + 1)

/-- `substate` behind all its checks. -/
def fillSection (state sect sectionLen : Nat) :
    PyResult (Int × Int) := do
  let startingPoint := sect * sectionLen
  let text := Nat.toDigits 2 state
  let binState ← (range' 0 text.length).foldlM (binStateStep text sectionLen)
    (List.replicate sectionLen '0')
  let s ← (range' startingPoint sectionLen).foldlM (sectionStep binState sectionLen)
    (MaskedDigits.zeros, 1)
  s.1.read other

/-- `substate` behind the check that its arguments are instances of `int`. -/
def substateOfInts (state sect secCount : Int) :
    PyResult (Int × Int) :=
  if state < 0 ∨ sect < 0 ∨ secCount < 0 then .ok (0, 0)
  -- the remainder is taken before any check that there are sections
  else if secCount = 0 then .error (.other "ZeroDivisionError")
  else if 32 % secCount ≠ 0 then .ok (0, 0)
  else if state ≥ 2 ^ (32 / secCount).toNat then .ok (0, 0)
  else if ¬(1 ≤ sect ∧ sect < secCount + 1) then .ok (0, 0)
  else fillSection other state.toNat sect.toNat (32 / secCount).toNat

def substate (state sect secCount : PyInteger) :
    PyResult (Int × Int) :=
  if ¬state.isInt ∨ ¬sect.isInt ∨ ¬secCount.isInt then .ok (0, 0)
  else substateOfInts other state.val sect.val secCount.val

/-! ## Filling a window of places -/

/-- The digits `f` at the places from `shift` on, `n` of them, and zeros elsewhere. -/
def window (shift n : Nat) (f : Nat → Char) (b : Nat) : Char :=
  if shift ≤ b ∧ b < shift + n then f (b - shift) else '0'

theorem window_zero (shift : Nat) (f : Nat → Char) (b : Nat) : window shift 0 f b = '0' :=
  if_neg (by omega)

theorem window_succ (shift n : Nat) (f : Nat → Char) (b : Nat) :
    window shift (n + 1) f b = if b = shift + n then f n else window shift n f b := by
  simp only [window]
  split_ifs with h1 h2 h3 h4
  · rw [h2, Nat.add_sub_cancel_left]
  · rfl
  · omega
  · omega
  · omega
  · rfl

variable {f : Nat → Char}

theorem window_mem {shift n : Nat} (hf : ∀ k, k < n → f k = '0' ∨ f k = '1') (b : Nat) :
    window shift n f b = '0' ∨ window shift n f b = '1' := by
  rw [window]
  split
  · exact hf _ (by omega)
  · exact .inl rfl

theorem window_eq_one_iff {shift n b : Nat} :
    window shift n f b = '1' ↔ shift ≤ b ∧ b < shift + n ∧ f (b - shift) = '1' := by
  rw [window]
  split
  · rename_i h
    simp [h]
  · rename_i h
    constructor
    · intro h0
      exact absurd h0 (by decide)
    · intro h1
      exact absurd ⟨h1.1, h1.2.1⟩ h

/-- The bits of the number that the digits of a window spell. -/
theorem testBit_window {xs : List Char} {shift n : Nat} (hle : shift + n ≤ 32)
    (h : Spells 32 xs (window shift n f)) (b : Nat) :
    (binVal xs).testBit b = decide (shift ≤ b ∧ b < shift + n ∧ f (b - shift) = '1') := by
  rw [h.testBit_binVal, decide_eq_decide, window_eq_one_iff]
  exact and_iff_right_of_imp fun hb => by omega

/-- What both loops have filled in after `n` rounds. -/
structure MaskedDigits.Filled (d : MaskedDigits) (shift n : Nat) (value mask : Nat → Char) :
    Prop where
  value : Spells 32 d.value (window shift n value)
  mask : Spells 32 d.mask (window shift n mask)

namespace MaskedDigits

variable {d : MaskedDigits} {shift n : Nat} {value mask : Nat → Char}

theorem filled_zeros (shift : Nat) (value mask : Nat → Char) :
    MaskedDigits.zeros.Filled shift 0 value mask :=
  ⟨(Spells.replicate 32 '0').congr fun b _ => (window_zero shift value b).symm,
    (Spells.replicate 32 '0').congr fun b _ => (window_zero shift mask b).symm⟩

/-- A round that leaves both lists alone stands for a zero in each. -/
theorem Filled.skip (h : d.Filled shift n value mask) (hv : value n = '0') (hm : mask n = '0') :
    d.Filled shift (n + 1) value mask := by
  have hsame : ∀ {f : Nat → Char}, f n = '0' →
      ∀ b, window shift n f b = window shift (n + 1) f b := by
    intro f hf b
    rw [window_succ, window]
    split_ifs <;> first | rfl | omega | exact hf.symm
  exact ⟨h.value.congr fun b _ => hsame hv b, h.mask.congr fun b _ => hsame hm b⟩

/-- The index `31 - i` in a round; `i` may be one field too large. -/
theorem setItem_window {xs : List Char} (h : Spells 32 xs (window shift n f)) {i : Nat}
    (hi : i < 64) (hmod : i % 32 = shift + n) :
    ∃ ys, setItem xs (31 - i) (f n) = .ok ys ∧ Spells 32 ys (window shift (n + 1) f) := by
  obtain ⟨ys, hys, hspells⟩ := h.setItem hi (f n)
  refine ⟨ys, hys, hspells.congr fun b _ => ?_⟩
  rw [hmod, window_succ]

/-- The numbers that are read have the bits of the windows. -/
theorem Filled.read {other : List Char → PyResult Int} (h : d.Filled shift n value mask)
    (hv : ∀ k, k < n → value k = '0' ∨ value k = '1')
    (hm : ∀ k, k < n → mask k = '0' ∨ mask k = '1') :
    d.read other = .ok ((binVal d.value : Int), (binVal d.mask : Int)) := by
  rw [MaskedDigits.read, h.value.intBase2 (by decide) fun b _ => window_mem hv b,
    h.mask.intBase2 (by decide) fun b _ => window_mem hm b]
  rfl

end MaskedDigits

/-! ## Global states from a text -/

/-- The characters the text may have. -/
def IsStateChar (c : Char) : Prop := c = '0' ∨ c = '1' ∨ c = '*'

instance (c : Char) : Decidable (IsStateChar c) := inferInstanceAs (Decidable (_ ∨ _))

/-- Text and offset fit the 32 bits. -/
def FitsGlobalState (string : List Char) (offset : Int) : Prop :=
  1 ≤ string.length ∧ 0 ≤ offset ∧ offset ≤ 31 ∧ string.length + offset ≤ 32

instance (string : List Char) (offset : Int) : Decidable (FitsGlobalState string offset) :=
  inferInstanceAs (Decidable (_ ∧ _))

/-- The character of the text for a bit of the global state. -/
def charAt (string : List Char) (offset b : Nat) : Option Char :=
  if offset ≤ b then string.reverse[b - offset]? else none

/-- The digits the loop puts into value and mask for the `k`-th character from the right. -/
def valueDigit (string : List Char) (k : Nat) : Char :=
  if digitAt string k = '*' then '0' else digitAt string k

def maskDigit (string : List Char) (k : Nat) : Char :=
  if digitAt string k = '*' then '0' else '1'

variable {string : List Char}

theorem exists_of_reSearch (h : reSearch string = true) : ∃ c ∈ string, ¬IsStateChar c := by
  fun_induction reSearch string with
  | case1 c d rest ih =>
    rcases Bool.or_eq_true_iff.1 h with hhere | hrest
    · have hd : ¬IsStateChar d := by
        simp only [Bool.and_eq_true, decide_eq_true_eq] at hhere
        rintro (h0 | h1 | h2)
        · exact hhere.1.1.2 h0
        · exact hhere.1.2 h1
        · exact hhere.2 h2
      exact ⟨d, by simp, hd⟩
    · obtain ⟨e, he, hbad⟩ := ih hrest
      exact ⟨e, mem_cons_of_mem c he, hbad⟩
  | case2 => cases h

variable {d : MaskedDigits}

theorem globalStateStep_filled {offset j : Nat} (hj : j < string.length)
    (hlen : string.length + offset ≤ 32)
    (h : d.Filled offset j (valueDigit string) (maskDigit string)) :
    ∃ d', globalStateStep string offset d (offset + j) = .ok d' ∧
      d'.Filled offset (j + 1) (valueDigit string) (maskDigit string) := by
  have hindex : (string.length : Int) - 1 + offset - ((offset + j : Nat) : Int) =
      string.length - 1 - j := by
    omega
  have hget : getItem string (string.length - 1 - j) = .ok (digitAt string j) :=
    Spells.getItem ⟨rfl, fun b _ => rfl⟩ hj
  have hmod : (offset + j) % 32 = offset + j := Nat.mod_eq_of_lt (by omega)
  rw [globalStateStep, hindex, hget]
  by_cases hstar : digitAt string j = '*'
  · refine ⟨d, ?_, h.skip (if_pos hstar) (if_pos hstar)⟩
    simp only [if_pos hstar, ok_bind]
    rfl
  · obtain ⟨mask, hmask, hm⟩ := MaskedDigits.setItem_window h.mask (i := offset + j) (by omega) hmod
    obtain ⟨value, hvalue, hv⟩ :=
      MaskedDigits.setItem_window h.value (i := offset + j) (by omega) hmod
    rw [maskDigit, if_neg hstar] at hmask
    rw [valueDigit, if_neg hstar] at hvalue
    refine ⟨⟨value, mask⟩, ?_, hv, hm⟩
    simp only [if_neg hstar, hmask, hvalue, ok_bind]
    rfl

/-- Behind the checks. -/
theorem maskedGlobalStateFromStr_of_fits {offset : Int}
    (hfits : FitsGlobalState string offset) (hre : reSearch string = false) :
    ∃ d : MaskedDigits, maskedGlobalStateFromStr other string offset = d.read other ∧
      d.Filled offset.toNat string.length (valueDigit string) (maskDigit string) := by
  obtain ⟨hpos, h0, h31, hsum⟩ := hfits
  obtain ⟨d, hd, hfilled⟩ := foldlM_range'_of_step
    (P := fun j d => MaskedDigits.Filled d offset.toNat j (valueDigit string) (maskDigit string))
    (fun j d hj h => globalStateStep_filled hj (by omega) h)
    (MaskedDigits.filled_zeros offset.toNat (valueDigit string) (maskDigit string))
  have hchecked : ¬(reSearch string = true ∨ string.length > 32 ∨ string.length < 1) := by
    rintro (h | h)
    · exact absurd (hre.symm.trans h) (by decide)
    · omega
  refine ⟨d, ?_, hfilled⟩
  rw [maskedGlobalStateFromStr, if_neg hchecked, if_neg (by omega), if_neg (by omega), hd]
  rfl

theorem maskedGlobalStateFromStr_of_not_fits {offset : Int}
    (h : ¬FitsGlobalState string offset ∨ reSearch string = true) :
    maskedGlobalStateFromStr other string offset = .ok (0, 0) := by
  rw [maskedGlobalStateFromStr]
  split_ifs with h1 h2 h3
  · rfl
  · rfl
  · rfl
  · rcases h with hfits | hre
    · refine absurd ⟨?_, ?_, ?_, ?_⟩ hfits <;> omega
    · exact absurd (.inl hre) h1

theorem charAt_eq {offset b : Nat} :
    charAt string offset b =
      if offset ≤ b ∧ b < offset + string.length then
        some (digitAt string (b - offset)) else none := by
  rw [charAt]
  by_cases hle : offset ≤ b
  · rw [if_pos hle]
    by_cases hlt : b < offset + string.length
    · rw [if_pos ⟨hle, hlt⟩, digitAt, getD_eq_getElem?_getD,
        getElem?_eq_getElem (by rw [length_reverse]; omega)]
      rfl
    · rw [if_neg (by omega), getElem?_eq_none (by rw [length_reverse]; omega)]
  · rw [if_neg hle, if_neg (by omega)]

/-- For a text of zeros, ones and stars that fits, a bit of the mask is set exactly when its
character is not a star, and the bit of the value is that character; for all else `(0, 0)`. -/
def MaskedMeets (string : List Char) (offset : Int) : Prop :=
  if FitsGlobalState string offset ∧ string.all (fun c => IsStateChar c) then
    ∃ value mask : Nat, maskedGlobalStateFromStr other string offset =
      .ok ((value : Int), (mask : Int)) ∧
      ∀ b, mask.testBit b = ((charAt string offset.toNat b).any (· ≠ '*')) ∧
        value.testBit b = (charAt string offset.toNat b == some '1')
  else maskedGlobalStateFromStr other string offset = .ok (0, 0)

theorem digitAt_mem {k : Nat} (h : k < string.length) : digitAt string k ∈ string := by
  have := getElem?_of_place h
  exact mem_of_getElem? this

theorem exists_digitAt_of_mem {c : Char} (h : c ∈ string) :
    ∃ k, k < string.length ∧ c = digitAt string k :=
  Spells.eq_of_mem ⟨rfl, fun _ _ => rfl⟩ h

variable {offset : Nat}

section

variable (hlen : string.length + offset ≤ 32)
  (h : d.Filled offset string.length (valueDigit string) (maskDigit string)) (b : Nat)
include hlen h

theorem testBit_mask : (binVal d.mask).testBit b = (charAt string offset b).any (· ≠ '*') := by
  rw [testBit_window (by omega) h.mask, charAt_eq]
  split
  · rename_i hb
    simp only [hb, maskDigit, Option.any_some]
    by_cases hstar : digitAt string (b - offset) = '*' <;> simp [hstar]
  · rename_i hb
    exact decide_eq_false fun h => hb ⟨h.1, h.2.1⟩

theorem testBit_value : (binVal d.value).testBit b = (charAt string offset b == some '1') := by
  rw [testBit_window (by omega) h.value, charAt_eq]
  split
  · rename_i hb
    simp only [hb, valueDigit]
    by_cases hstar : digitAt string (b - offset) = '*'
    · simp [hstar]
    · simp [hstar, Bool.beq_eq_decide_eq]
  · rename_i hb
    exact decide_eq_false fun h => hb ⟨h.1, h.2.1⟩

end

theorem maskDigit_mem (string : List Char) (k : Nat) :
    maskDigit string k = '0' ∨ maskDigit string k = '1' := by
  rw [maskDigit]
  split
  · exact .inl rfl
  · exact .inr rfl

/-- A character other than a star leaves a one in the mask, so the result is not `(0, 0)`. -/
theorem read_ne_zero {other : List Char → PyResult Int} (hlen : string.length + offset ≤ 32)
    (h : d.Filled offset string.length (valueDigit string) (maskDigit string)) {c : Char}
    (hc : c ∈ string) (hstar : c ≠ '*') : d.read other ≠ .ok (0, 0) := by
  obtain ⟨k, hk, rfl⟩ := exists_digitAt_of_mem hc
  have hbit : (binVal d.mask).testBit (offset + k) = true := by
    rw [testBit_mask hlen h, charAt_eq, if_pos (by omega), Nat.add_sub_cancel_left]
    simpa using hstar
  have hmask : intBase2 other d.mask = .ok (binVal d.mask) :=
    h.mask.intBase2 (by decide) fun b _ => window_mem (fun k _ => maskDigit_mem string k) b
  intro hread
  obtain ⟨value, -, hread⟩ := bind_eq_ok.1 hread
  rw [hmask] at hread
  have hzero : binVal d.mask = 0 := by
    have := congrArg Prod.snd (Except.ok.inj hread)
    exact Int.ofNat_eq_zero.1 this
  rw [hzero, Nat.zero_testBit] at hbit
  cases hbit

/-- The result is as it should be exactly for texts of zeros, ones and stars, for those that do not
fit, and for those in which the letter `r` stands in front of another character. -/
theorem masked_iff (string : List Char) (offset : Int) :
    MaskedMeets other string offset ↔
      ((∀ c ∈ string, IsStateChar c) ∨ ¬FitsGlobalState string offset ∨
        reSearch string = true) := by
  have hall : string.all (fun c => IsStateChar c) = true ↔ ∀ c ∈ string, IsStateChar c := by
    simp
  by_cases hchars : ∀ c ∈ string, IsStateChar c
  · refine iff_of_true ?_ (.inl hchars)
    rw [MaskedMeets]
    split
    · rename_i hvalid
      have hre : reSearch string = false := by
        rw [Bool.eq_false_iff]
        intro hre
        obtain ⟨c, hc, hbad⟩ := exists_of_reSearch hre
        exact hbad (hchars c hc)
      obtain ⟨d, hd, hfilled⟩ := maskedGlobalStateFromStr_of_fits other hvalid.1 hre
      have hlen : string.length + offset.toNat ≤ 32 := by
        obtain ⟨-, h0, -, hsum⟩ := hvalid.1
        omega
      have hvalue : ∀ k, k < string.length →
          valueDigit string k = '0' ∨ valueDigit string k = '1' := by
        intro k hk
        rw [valueDigit]
        rcases hchars _ (digitAt_mem hk) with h | h | h <;> rw [h] <;> decide
      refine ⟨binVal d.value, binVal d.mask, ?_, fun b => ⟨testBit_mask hlen hfilled b,
        testBit_value hlen hfilled b⟩⟩
      rw [hd, hfilled.read hvalue fun k _ => maskDigit_mem string k]
    · rename_i hvalid
      exact maskedGlobalStateFromStr_of_not_fits other
        (.inl fun hfits => hvalid ⟨hfits, hall.2 hchars⟩)
  · rw [MaskedMeets, if_neg fun h => hchars (hall.1 h.2)]
    constructor
    · intro hzero
      by_contra hcon
      push Not at hcon
      obtain ⟨-, hfits, hre⟩ := hcon
      obtain ⟨d, hd, hfilled⟩ :=
        maskedGlobalStateFromStr_of_fits other hfits (Bool.eq_false_iff.2 hre)
      have hlen : string.length + offset.toNat ≤ 32 := by
        obtain ⟨-, h0, -, hsum⟩ := hfits
        omega
      push Not at hchars
      obtain ⟨c, hc, hbad⟩ := hchars
      exact read_ne_zero hlen hfilled hc (fun h => hbad (.inr (.inr h))) (hd ▸ hzero)
    · rintro (h | h)
      · exact absurd h hchars
      · exact maskedGlobalStateFromStr_of_not_fits other h

/-- The text `2` is not rejected: reading the value raises. -/
theorem not_maskedMeets_two :
    maskedGlobalStateFromStr (fun _ => .error .valueError) ['2'] = .error .valueError ∧
      ¬MaskedMeets (fun _ => .error .valueError) ['2'] 0 := by
  rw [MaskedMeets, if_neg (by decide)]
  decide +kernel

/-! ## Sections of the state -/

/-- The value and the mask of a section of width `w` that begins at the bit `shift`. -/
def fieldAt (state w shift : Nat) : Int × Int :=
  (((state <<< shift : Nat) : Int), (((2 ^ w - 1) <<< shift : Nat) : Int))

/-- The first loop: the list for the section has the bits of the state. -/
theorem foldlM_binStateStep {state w : Nat} (hw : 0 < w) (hstate : state < 2 ^ w) :
    ∃ binState, (range' 0 (Nat.toDigits 2 state).length).foldlM
        (binStateStep (Nat.toDigits 2 state) w) (List.replicate w '0') = .ok binState ∧
      Spells w binState fun b => bitChar (state.testBit b) := by
  set text := Nat.toDigits 2 state with htext
  have hle : text.length ≤ w := (Nat.length_toDigits_le_iff (by decide) hw).2 hstate
  have hround : ∀ j xs, j < text.length → Spells w xs (window 0 j (digitAt text)) →
      ∃ ys, binStateStep text w xs (0 + j) = .ok ys ∧
        Spells w ys (window 0 (j + 1) (digitAt text)) := by
    intro j xs hj h
    have hget : getItem text ((text.length : Int) - 1 - j) = .ok (digitAt text j) :=
      Spells.getItem ⟨rfl, fun b _ => rfl⟩ hj
    obtain ⟨ys, hys, hspells⟩ := h.setItem (i := j) (by omega) (digitAt text j)
    refine ⟨ys, ?_, hspells.congr fun b _ => ?_⟩
    · rw [binStateStep, Nat.zero_add, hget]
      exact hys
    · rw [Nat.mod_eq_of_lt (by omega), window_succ, Nat.zero_add]
  obtain ⟨binState, hloop, hspells⟩ := foldlM_range'_of_step hround
    ((Spells.replicate w '0').congr fun b _ => (window_zero 0 (digitAt text) b).symm)
  refine ⟨binState, hloop, hspells.congr fun b _ => ?_⟩
  rw [← digitAt_toDigits, ← htext, window]
  split
  · rw [Nat.sub_zero]
  · rw [digitAt, getD_eq_default]
    rw [length_reverse]
    omega

theorem sectionStep_filled {binState : List Char} {w start shift j : Nat} {bits : Nat → Char}
    (hbin : Spells w binState bits) (hj : j < w) (hstart : start + j < 64)
    (hmod : (start + j) % 32 = shift + j) (h : d.Filled shift j bits fun _ => '1') :
    ∃ d' : MaskedDigits, sectionStep binState w (d, j + 1) (start + j) = .ok (d', j + 2) ∧
      d'.Filled shift (j + 1) bits fun _ => '1' := by
  have hindex : (w : Int) - ((j + 1 : Nat) : Int) = w - 1 - j := by
    omega
  obtain ⟨value, hvalue, hv⟩ := MaskedDigits.setItem_window h.value hstart hmod
  obtain ⟨mask, hmask, hm⟩ := MaskedDigits.setItem_window h.mask hstart hmod
  refine ⟨⟨value, mask⟩, ?_, hv, hm⟩
  rw [sectionStep]
  simp only [hindex, hbin.getItem hj, hvalue, hmask, ok_bind]
  rfl

/-- The digits of a window that holds the bits of a state spell the state, shifted. -/
theorem binVal_of_window {xs : List Char} {state w shift : Nat} (hstate : state < 2 ^ w)
    (hshift : shift + w ≤ 32)
    (h : Spells 32 xs (window shift w fun b => bitChar (state.testBit b))) :
    binVal xs = state <<< shift := by
  apply Nat.eq_of_testBit_eq
  intro b
  rw [testBit_window hshift h, Nat.testBit_shiftLeft]
  by_cases hb : shift ≤ b
  · by_cases hlt : b < shift + w
    · simp [hb, hlt]
    · have hpow : 2 ^ w ≤ 2 ^ (b - shift) := Nat.pow_le_pow_right (by decide) (by omega)
      simp [hlt, Nat.testBit_lt_two_pow (show state < 2 ^ (b - shift) by omega)]
  · simp [hb]

/-- Behind its checks `substate` fills the section that begins at `sect * w`, which for the last
section is the right end again. -/
theorem fillSection_eq {state sect w : Nat} (hw : 0 < w)
    (hstate : state < 2 ^ w) (hend : sect * w + w ≤ 64) (hfield : sect * w % 32 + w ≤ 32) :
    fillSection other state sect w = .ok (fieldAt state w (sect * w % 32)) := by
  set shift := sect * w % 32 with hshift
  obtain ⟨binState, hbin, hspells⟩ := foldlM_binStateStep hw hstate
  have hround : ∀ j (s : MaskedDigits × Nat), j < w →
      s.2 = j + 1 ∧ s.1.Filled shift j (fun b => bitChar (state.testBit b)) (fun _ => '1') →
      ∃ t, sectionStep binState w s (sect * w + j) = .ok t ∧
        t.2 = j + 1 + 1 ∧
          t.1.Filled shift (j + 1) (fun b => bitChar (state.testBit b)) fun _ => '1' := by
    rintro j ⟨d, count⟩ hj ⟨hcount, hd⟩
    subst hcount
    have hmod : (sect * w + j) % 32 = shift + j := by omega
    obtain ⟨d', hd', hfilled⟩ := sectionStep_filled hspells hj (by omega) hmod hd
    exact ⟨(d', j + 2), hd', rfl, hfilled⟩
  obtain ⟨⟨d, count⟩, hloop, -, hfilled⟩ := foldlM_range'_of_step hround
    (s := (MaskedDigits.zeros, 1)) ⟨rfl, MaskedDigits.filled_zeros shift _ _⟩
  have hones : Spells 32 d.mask
      (window shift w fun b => bitChar ((2 ^ w - 1).testBit b)) := by
    refine hfilled.mask.congr fun b _ => ?_
    rw [window, window]
    split
    · have hlt : b - shift < w := by omega
      simp [Nat.testBit_two_pow_sub_one, hlt, bitChar]
    · rfl
  have hread : d.read other = _ :=
    hfilled.read (fun k _ => bitChar_mem (state.testBit k)) fun _ _ => .inr rfl
  have hpow : 2 ^ w - 1 < 2 ^ w := Nat.sub_lt (Nat.pow_pos (by decide)) (by decide)
  rw [binVal_of_window hstate hfield hfilled.value, binVal_of_window hpow hfield hones] at hread
  rw [fillSection, hbin]
  simp only [hloop, ok_bind]
  exact hread

/-- The arguments that name a section and a state that fits it. -/
def Selects (state sect secCount : Int) : Prop :=
  0 < secCount ∧ secCount ∣ 32 ∧ (1 ≤ sect ∧ sect ≤ secCount) ∧
    0 ≤ state ∧ state < 2 ^ (32 / secCount).toNat

instance (state sect secCount : Int) : Decidable (Selects state sect secCount) :=
  inferInstanceAs (Decidable (_ ∧ _))

theorem substate_eq_ite (state sect secCount : PyInteger) :
    substate other state sect secCount = if state.isInt ∧ sect.isInt ∧ secCount.isInt then
      substateOfInts other state.val sect.val secCount.val else .ok (0, 0) := by
  simp only [substate, ← not_and_or, ite_not]

theorem pos_of_mul_eq {n w : Nat} (h : n * w = 32) : 0 < w := by
  rcases Nat.eq_zero_or_pos w with rfl | hw
  · simp at h
  · exact hw

variable {state sect secCount : Int}

/-- A number of sections that divides the field, its width, and the section in terms of bits. -/
theorem Selects.width (h : Selects state sect secCount) :
    ∃ s n w : Nat, sect = s ∧ secCount = n ∧ (32 / secCount).toNat = w ∧ n * w = 32 ∧
      1 ≤ s ∧ s ≤ n := by
  obtain ⟨hpos, ⟨w, hw⟩, ⟨h1, hle⟩, -⟩ := h
  obtain ⟨n, rfl⟩ := Int.eq_ofNat_of_zero_le (show 0 ≤ secCount by omega)
  obtain ⟨s, rfl⟩ := Int.eq_ofNat_of_zero_le (show 0 ≤ sect by omega)
  have hw0 : 0 ≤ w := by
    by_contra hneg
    have := Int.mul_neg_of_pos_of_neg hpos (show w < 0 by omega)
    omega
  obtain ⟨w, rfl⟩ := Int.eq_ofNat_of_zero_le hw0
  have hmul : n * w = 32 := by exact_mod_cast hw.symm
  refine ⟨s, n, w, rfl, rfl, ?_, hmul, by omega, by omega⟩
  rw [hw, Int.mul_ediv_cancel_left _ (by omega)]
  rfl

theorem Selects.width_pos (h : Selects state sect secCount) : 0 < (32 / secCount).toNat := by
  obtain ⟨s, n, w, -, -, hwidth, hmul, -⟩ := h.width
  rw [hwidth]
  exact pos_of_mul_eq hmul

/-- Where the code puts a state: one section further to the left than the argument says, and the
last section at the right end. -/
theorem substate_eq (h : Selects state sect secCount) :
    substateOfInts other state sect secCount =
      .ok (fieldAt state.toNat (32 / secCount).toNat
        (sect.toNat * (32 / secCount).toNat % 32)) := by
  obtain ⟨s, n, w, rfl, rfl, hwidth, hmul, h1, hle⟩ := h.width
  obtain ⟨hpos, hdvd, -, h0, hlt⟩ := h
  rw [hwidth] at hlt ⊢
  obtain ⟨state, rfl⟩ := Int.eq_ofNat_of_zero_le h0
  have hstate : state < 2 ^ w := by exact_mod_cast hlt
  have hw : 0 < w := pos_of_mul_eq hmul
  have hsw : s * w ≤ 32 := hmul ▸ Nat.mul_le_mul_right w hle
  have hfield : s * w % 32 + w ≤ 32 := by
    rcases Nat.lt_or_ge s n with hlast | hlast
    · have := Nat.mul_le_mul_right w (show s + 1 ≤ n from hlast)
      rw [hmul, Nat.add_mul, Nat.one_mul] at this
      rw [Nat.mod_eq_of_lt (by omega)]
      exact this
    · rw [show s = n by omega, hmul]
      have := Nat.le_mul_of_pos_left w (show 0 < n by omega)
      omega
  have hmod : (32 : Int) % n = 0 := Int.emod_eq_zero_of_dvd hdvd
  rw [substateOfInts, hwidth, if_neg (by omega), if_neg (by omega), if_neg (not_not.2 hmod),
    if_neg (by omega), if_neg (by omega), Int.toNat_natCast, Int.toNat_natCast]
  exact fillSection_eq other hw hstate (by omega) hfield

/-- What `substate` does with integers that name no section. -/
theorem substate_of_not_selects
    (h : ¬Selects state sect secCount) :
    substateOfInts other state sect secCount =
      if 0 ≤ state ∧ 0 ≤ sect ∧ secCount = 0 then .error (.other "ZeroDivisionError")
      else .ok (0, 0) := by
  rw [substateOfInts]
  by_cases hneg : state < 0 ∨ sect < 0 ∨ secCount < 0
  · rw [if_pos hneg, if_neg (by omega)]
  by_cases hzero : secCount = 0
  · rw [if_neg hneg, if_pos hzero, if_pos (by omega)]
  rw [if_neg hneg, if_neg hzero, if_neg (show ¬(0 ≤ state ∧ 0 ≤ sect ∧ secCount = 0) by omega)]
  by_cases hmod : 32 % secCount ≠ 0
  · rw [if_pos hmod]
  by_cases hbig : state ≥ 2 ^ (32 / secCount).toNat
  · rw [if_neg hmod, if_pos hbig]
  rw [if_neg hmod, if_neg hbig, if_pos]
  intro hsect
  exact h ⟨by omega, Int.dvd_of_emod_eq_zero (not_not.1 hmod), by omega, by omega, by omega⟩

/-- Sections are counted from one from the right: the value and the mask of a section. -/
def sectionField (state sect secCount : Int) : Int × Int :=
  fieldAt state.toNat (32 / secCount).toNat ((sect - 1).toNat * (32 / secCount).toNat)

/-- For a section of a divided field and a state that fits it, its value and mask; for all other
integers `(0, 0)`. -/
def SubstateMeets (state sect secCount : PyInteger) : Prop :=
  substate other state sect secCount = .ok
    (if Selects state.val sect.val secCount.val then sectionField state.val sect.val secCount.val
      else (0, 0))

theorem fieldAt_ne_zero {state w shift : Nat} (hw : 0 < w) : fieldAt state w shift ≠ (0, 0) := by
  intro h
  have hmask : (2 ^ w - 1) <<< shift = 0 := Int.ofNat_eq_zero.1 (congrArg Prod.snd h)
  have hbit : ((2 ^ w - 1) <<< shift).testBit shift = true := by
    simp [Nat.testBit_shiftLeft, hw]
  rw [hmask, Nat.zero_testBit] at hbit
  cases hbit

theorem fieldAt_injective {state w shift shift' : Nat} (hw : 0 < w)
    (h : fieldAt state w shift = fieldAt state w shift') : shift = shift' := by
  have hmask : (2 ^ w - 1) <<< shift = (2 ^ w - 1) <<< shift' :=
    Int.ofNat_inj.1 (congrArg Prod.snd h)
  have hones : 0 < 2 ^ w - 1 := Nat.sub_pos_of_lt (Nat.one_lt_two_pow (by omega))
  rw [Nat.shiftLeft_eq, Nat.shiftLeft_eq] at hmask
  exact Nat.pow_right_injective (le_refl 2) (Nat.eq_of_mul_eq_mul_left hones hmask)

/-- The section that is filled is the right one only when there is one section. -/
theorem substateOfInts_eq_sectionField_iff
    (h : Selects state sect secCount) :
    substateOfInts other state sect secCount = .ok (sectionField state sect secCount) ↔
      secCount = 1 := by
  rw [substate_eq other h, sectionField]
  obtain ⟨s, n, w, rfl, rfl, hwidth, hmul, h1, hle⟩ := h.width
  have hw : 0 < w := pos_of_mul_eq hmul
  have hsw : s * w ≤ 32 := hmul ▸ Nat.mul_le_mul_right w hle
  have hws : w ≤ s * w := Nat.le_mul_of_pos_left w h1
  have hprev : ((s : Int) - 1).toNat * w = s * w - w := by
    rw [show ((s : Int) - 1).toNat = s - 1 by omega, Nat.sub_mul, Nat.one_mul]
  rw [hwidth, hprev, Int.toNat_natCast]
  constructor
  · intro heq
    have hshift := fieldAt_injective hw (Except.ok.inj heq)
    have hw32 : w = 32 := by
      rcases Nat.lt_or_ge (s * w) 32 with hlt | hge
      · omega
      · omega
    rw [hw32] at hmul
    omega
  · intro hone
    have hn : n = 1 := by omega
    have hs : s = 1 := by omega
    rw [hn, Nat.one_mul] at hmul
    rw [hs, hmul]

/-- The result is as it should be exactly for the undivided field, and for integers that name no
section unless there are zero sections to take the remainder by. -/
theorem substate_iff (state sect secCount : PyInteger) :
    SubstateMeets other state sect secCount ↔
      (Selects state.val sect.val secCount.val ∧ secCount.val = 1 ∧
        (state.isInt ∧ sect.isInt ∧ secCount.isInt)) ∨
      (¬Selects state.val sect.val secCount.val ∧
        ¬(secCount.val = 0 ∧ 0 ≤ state.val ∧ 0 ≤ sect.val ∧
          (state.isInt ∧ sect.isInt ∧ secCount.isInt))) := by
  rw [SubstateMeets]
  by_cases hints : state.isInt ∧ sect.isInt ∧ secCount.isInt
  · rw [substate_eq_ite, if_pos hints]
    by_cases h : Selects state.val sect.val secCount.val
    · rw [if_pos h, substateOfInts_eq_sectionField_iff other h]
      tauto
    · rw [if_neg h, substate_of_not_selects other h]
      split
      · tauto
      · tauto
  · rw [substate_eq_ite, if_neg hints]
    by_cases h : Selects state.val sect.val secCount.val
    · rw [if_pos h]
      have hne : Except.ok (0, 0) ≠
          (.ok (sectionField state.val sect.val secCount.val) : PyResult (Int × Int)) := by
        intro heq
        exact fieldAt_ne_zero h.width_pos (Except.ok.inj heq).symm
      tauto
    · rw [if_neg h]
      tauto

/-- The example of the documentation: the second of four sections is filled at the bits of the
third. -/
theorem not_substateMeets_five :
    substate (fun _ => .error .valueError) (.int 5) (.int 2) (.int 4) = .ok (327680, 16711680) ∧
      ¬SubstateMeets (fun _ => .error .valueError) (.int 5) (.int 2) (.int 4) := by
  have hrun : substate (fun _ => .error .valueError) (.int 5) (.int 2) (.int 4) =
      .ok (327680, 16711680) := by decide +kernel
  rw [SubstateMeets, hrun]
  decide +kernel

end BebaCtrl
