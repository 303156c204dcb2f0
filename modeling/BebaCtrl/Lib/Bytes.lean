import Mathlib.Data.List.Induction
import Mathlib.Tactic.Ring

/-!
# Byte strings

Byte strings are lists of octets. This file has the big-endian numerals of network formats,
the slices a reader takes, and `splice`, the effect of writing a byte string at an offset of a
growing buffer: the buffer is extended with zeros up to the offset, overwritten where the new
bytes fall, and otherwise left alone.

Codecs are proved in two halves that meet at `At`: a writer leaves `At buf off bs`, a reader is
specified by the bytes `At` its offset. The `splice` laws compose writes in any order.
-/

namespace BebaCtrl

open List

abbrev Bytes := List UInt8

def zeros (n : Nat) : Bytes := List.replicate n 0

@[simp] theorem length_zeros (n : Nat) : (zeros n).length = n := by simp [zeros]
@[simp] theorem zeros_zero : zeros 0 = [] := rfl

theorem zeros_add (m n : Nat) : zeros (m + n) = zeros m ++ zeros n := by
  simp [zeros]

/-- Round `x` up to the next multiple of `y`. -/
def roundUp (x y : Nat) : Nat := (x + y - 1) / y * y

variable {y : Nat}

theorem le_roundUp (x : Nat) (hy : 0 < y) : x ≤ roundUp x y := by
  have h := Nat.lt_mul_div_succ (x + y - 1) hy
  have e : y * ((x + y - 1) / y + 1) = (x + y - 1) / y * y + y := by ring
  unfold roundUp
  omega

theorem dvd_roundUp (x y : Nat) : y ∣ roundUp x y := Nat.dvd_mul_left y _

theorem roundUp_of_dvd {x y : Nat} (hy : 0 < y) (h : y ∣ x) : roundUp x y = x := by
  obtain ⟨k, rfl⟩ := h
  have e : (y * k + y - 1) / y = k := by
    rw [Nat.add_sub_assoc hy, Nat.mul_add_div hy, Nat.div_eq_of_lt (by omega), Nat.add_zero]
  rw [roundUp, e, Nat.mul_comm]

theorem roundUp_add_self (x : Nat) (hy : 0 < y) : roundUp (x + y) y = roundUp x y + y := by
  have e : (x + y + y - 1) / y = (x + y - 1) / y + 1 := by
    rw [show x + y + y - 1 = x + y - 1 + y by omega, Nat.add_div_right _ hy]
  rw [roundUp, roundUp, e, Nat.succ_mul]

theorem roundUp_lt (x : Nat) (hy : 0 < y) : roundUp x y < x + y := by
  have h := Nat.div_mul_le_self (x + y - 1) y
  unfold roundUp
  omega

/-! ## Big-endian numerals -/

/-- The `n` low-order bytes of `v`, most significant first. -/
def beEncode : Nat → Nat → Bytes
  | 0, _ => []
  | n + 1, v => beEncode n (v / 256) ++ [UInt8.ofNat v]

def beDecode (bs : Bytes) : Nat := bs.foldl (fun acc b => acc * 256 + b.toNat) 0

@[simp] theorem length_beEncode (n v : Nat) : (beEncode n v).length = n := by
  induction n generalizing v with
  | zero => rfl
  | succ n ih => simp [beEncode, ih]

@[simp] theorem beDecode_nil : beDecode [] = 0 := rfl

theorem beDecode_concat (bs : Bytes) (b : UInt8) :
    beDecode (bs ++ [b]) = beDecode bs * 256 + b.toNat := by
  simp [beDecode]

theorem beDecode_beEncode (n v : Nat) (h : v < 256 ^ n) : beDecode (beEncode n v) = v := by
  induction n generalizing v with
  | zero => simp at h; simp [beEncode, h]
  | succ n ih =>
    have hd : v / 256 < 256 ^ n := by
      apply (Nat.div_lt_iff_lt_mul (by decide)).2
      simpa [Nat.pow_succ] using h
    rw [beEncode, beDecode_concat, ih _ hd, UInt8.toNat_ofNat']
    omega

theorem beEncode_beDecode (bs : Bytes) : beEncode bs.length (beDecode bs) = bs := by
  induction bs using reverseRecOn with
  | nil => rfl
  | append_singleton bs b ih =>
    have hb := b.toNat_lt
    have hdiv : (beDecode bs * 256 + b.toNat) / 256 = beDecode bs := by omega
    have hlow : UInt8.ofNat (beDecode bs * 256 + b.toNat) = b := by
      apply UInt8.toNat.inj
      rw [UInt8.toNat_ofNat']
      omega
    rw [length_append, length_singleton, beEncode, beDecode_concat, hdiv, hlow, ih]

theorem beDecode_append (a b : Bytes) :
    beDecode (a ++ b) = beDecode a * 256 ^ b.length + beDecode b := by
  induction b using reverseRecOn with
  | nil => simp
  | append_singleton b x ih =>
    rw [← append_assoc, beDecode_concat, ih, beDecode_concat, length_append,
      length_singleton, Nat.pow_succ]
    ring

theorem beDecode_lt (bs : Bytes) : beDecode bs < 256 ^ bs.length := by
  induction bs using reverseRecOn with
  | nil => simp
  | append_singleton bs b ih =>
    have hb := b.toNat_lt
    rw [beDecode_concat, length_append, length_singleton, Nat.pow_succ]
    omega

variable {bs : Bytes}

theorem beDecode_eq_zero_iff : beDecode bs = 0 ↔ bs = zeros bs.length := by
  induction bs using reverseRecOn with
  | nil => simp
  | append_singleton bs b ih =>
    rw [beDecode_concat, length_append, length_singleton, zeros_add]
    refine Iff.trans ?_ append_singleton_inj.symm
    rw [← ih, ← UInt8.toNat_inj]
    simp

/-! ## Slices -/

/-- The slice `b[i:j]`, empty when `j ≤ i` and cut short at the end of `b`. -/
def slice (b : Bytes) (i j : Nat) : Bytes := (b.drop i).take (j - i)

/-- `bs` stands at offset `off` of `buf`. -/
def At (buf : Bytes) (off : Nat) (bs : Bytes) : Prop := bs <+: buf.drop off

instance (buf : Bytes) (off : Nat) (bs : Bytes) : Decidable (At buf off bs) :=
  inferInstanceAs (Decidable (bs <+: buf.drop off))

variable {buf : Bytes} {off : Nat} {a b : Bytes}

theorem at_append : At buf off (a ++ b) ↔ At buf off a ∧ At buf (off + a.length) b := by
  unfold At
  rw [← drop_drop]
  constructor
  · rintro ⟨t, ht⟩
    rw [← ht]
    simp
  · rintro ⟨⟨s, hs⟩, ⟨t, ht⟩⟩
    rw [← hs] at ht ⊢
    rw [drop_left] at ht
    exact ⟨t, by rw [append_assoc, ht]⟩

theorem At.left (h : At buf off (a ++ b)) : At buf off a := (at_append.1 h).1

theorem At.right (h : At buf off (a ++ b)) : At buf (off + a.length) b := (at_append.1 h).2

theorem At.length_le (h : At buf off bs) (hne : bs ≠ []) : off + bs.length ≤ buf.length := by
  have h1 := List.IsPrefix.length_le h
  have h2 := length_pos_iff.2 hne
  simp only [length_drop] at h1
  omega

theorem At.take_eq (h : At buf off bs) : (buf.drop off).take bs.length = bs := by
  obtain ⟨t, ht⟩ := h
  rw [← ht, take_left]

theorem At.slice_eq (h : At buf off bs) : slice buf off (off + bs.length) = bs := by
  rw [slice, Nat.add_sub_cancel_left, h.take_eq]

theorem at_front (a b : Bytes) : At (a ++ b) 0 a := prefix_append a b

@[simp] theorem at_nil (buf : Bytes) (off : Nat) : At buf off [] := nil_prefix

/-! ## Writing at an offset -/

/-- The buffer after writing `bs` at offset `off`. -/
def splice (buf : Bytes) (off : Nat) (bs : Bytes) : Bytes :=
  (buf ++ zeros (off - buf.length)).take off ++ bs ++ buf.drop (off + bs.length)

theorem length_base (buf : Bytes) (off : Nat) :
    ((buf ++ zeros (off - buf.length)).take off).length = off := by
  simp; omega

@[simp] theorem length_splice (buf : Bytes) (off : Nat) (bs : Bytes) :
    (splice buf off bs).length = max buf.length (off + bs.length) := by
  simp [splice]; omega

theorem splice_end (buf bs : Bytes) : splice buf buf.length bs = buf ++ bs := by
  simp [splice]

/-- Past the end of the buffer the gap is filled with zeros. -/
theorem splice_of_le (h : buf.length ≤ off) (bs : Bytes) :
    splice buf off bs = buf ++ zeros (off - buf.length) ++ bs := by
  have hlen : (buf ++ zeros (off - buf.length)).length ≤ off := by simp; omega
  rw [splice, take_of_length_le hlen, drop_eq_nil_of_le (by omega), append_nil]

section

variable (buf : Bytes) (off : Nat)

theorem at_splice (bs : Bytes) : At (splice buf off bs) off bs := by
  refine ⟨buf.drop (off + bs.length), ?_⟩
  rw [splice, append_assoc, drop_left' (length_base buf off)]

theorem drop_splice (bs : Bytes) :
    (splice buf off bs).drop (off + bs.length) = buf.drop (off + bs.length) := by
  have h : ((buf ++ zeros (off - buf.length)).take off ++ bs).length = off + bs.length := by
    rw [length_append, length_base]
  rw [splice, drop_left' h]

/-- What stands where after a write. -/
theorem getElem?_splice (bs : Bytes) (i : Nat) :
    (splice buf off bs)[i]? = if i < off then some (buf[i]?.getD 0) else
      if i < off + bs.length then bs[i - off]? else buf[i]? := by
  rw [splice, append_assoc, getElem?_append, length_base, getElem?_append, getElem?_drop,
    getElem?_take, getElem?_append, zeros, getElem?_replicate]
  split
  · split
    · simp [*]
    · rw [if_pos (by omega), getElem?_eq_none (by omega)]
      rfl
  · split
    · rw [if_pos (by omega)]
    · rw [if_neg (by omega)]
      congr 1
      omega

/-- Writing `a` and then `b` right behind it writes `a ++ b`. -/
theorem splice_splice (a b : Bytes) :
    splice (splice buf off a) (off + a.length) b = splice buf off (a ++ b) := by
  ext1 i
  simp only [getElem?_splice, length_append, getElem?_append]
  grind

/-- A header written after its body: the order of the two writes does not matter. -/
theorem splice_splice_before (a b : Bytes) :
    splice (splice buf (off + a.length) b) off a = splice buf off (a ++ b) := by
  ext1 i
  simp only [getElem?_splice, length_append, getElem?_append]
  grind

end

/-- Zeros at the end of a buffer do not change what a write beyond them leaves. -/
theorem splice_append_zeros {k : Nat} (hk : buf.length + k ≤ off + bs.length) :
    splice (buf ++ zeros k) off bs = splice buf off bs := by
  ext1 i
  simp only [getElem?_splice, getElem?_append, zeros, getElem?_replicate]
  grind

end BebaCtrl
