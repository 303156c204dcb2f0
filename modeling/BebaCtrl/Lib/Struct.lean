import BebaCtrl.Lib.Bytes
import BebaCtrl.Lib.Python

/-!
# Packed binary structures

The `struct` module for network byte order (`!`): unsigned integers of a fixed width, pad bytes
and byte strings. A format is a list of items, written with the letters of the format strings,
so that `'!BBHI'` is `[B, B, H, I]`, `'4x'` is `x 4` and `'16s'` is `s 16`.

`pack` refuses values that do not agree with the format in number, kind or range. `unpackFrom`
refuses a buffer that is too short. `unpackFrom_at` is the round trip.
-/

namespace BebaCtrl.Struct

open List

inductive Item where
  | uint (n : Nat)
  | pad (n : Nat)
  | str (n : Nat)
  deriving DecidableEq, Repr

abbrev Fmt := List Item

abbrev B : Item := .uint 1
abbrev H : Item := .uint 2
abbrev I : Item := .uint 4
abbrev Q : Item := .uint 8
abbrev x (n : Nat) : Item := .pad n
abbrev s (n : Nat) : Item := .str n

/-- A packed value: an unsigned integer or a byte string. -/
inductive Val where
  | int (v : Nat)
  | bytes (b : Bytes)
  deriving DecidableEq, Repr

@[simp] def Item.size : Item → Nat
  | .uint n | .pad n | .str n => n

def calcsize : Fmt → Nat
  | [] => 0
  | item :: fmt => item.size + calcsize fmt

/-- Do the values agree with the format? -/
def fits : Fmt → List Val → Bool
  | [], [] => true
  | .pad _ :: fmt, vs => fits fmt vs
  | .uint n :: fmt, .int v :: vs => decide (v < 256 ^ n) && fits fmt vs
  | .str _ :: fmt, .bytes _ :: vs => fits fmt vs
  | _, _ => false

/-- The bytes of the values; strings are cut or filled with zeros to their width. -/
def encode : Fmt → List Val → Bytes
  | .pad n :: fmt, vs => zeros n ++ encode fmt vs
  | .uint n :: fmt, .int v :: vs => beEncode n v ++ encode fmt vs
  | .str n :: fmt, .bytes b :: vs => (b ++ zeros (n - b.length)).take n ++ encode fmt vs
  | _, _ => []

def pack (fmt : Fmt) (vs : List Val) : PyResult Bytes :=
  if fits fmt vs then .ok (encode fmt vs) else .error .structError

def decode : Fmt → Bytes → List Val
  | [], _ => []
  | .pad n :: fmt, b => decode fmt (b.drop n)
  | .uint n :: fmt, b => .int (beDecode (b.take n)) :: decode fmt (b.drop n)
  | .str n :: fmt, b => .bytes (b.take n) :: decode fmt (b.drop n)

/-- `struct.unpack_from(fmt, buf, off)` -/
def unpackFrom (fmt : Fmt) (buf : Bytes) (off : Nat) : PyResult (List Val) :=
  if off + calcsize fmt ≤ buf.length then .ok (decode fmt (buf.drop off)) else .error .structError

/-- `struct.unpack(fmt, buf)`, which wants a buffer of exactly the right size. -/
def unpack (fmt : Fmt) (buf : Bytes) : PyResult (List Val) :=
  if buf.length = calcsize fmt then .ok (decode fmt buf) else .error .structError

variable {fmt : Fmt} {vs : List Val}

theorem length_encode (h : fits fmt vs = true) : (encode fmt vs).length = calcsize fmt := by
  fun_induction fits fmt vs with
  | case1 => rfl
  | case2 n fmt vs ih => simp [encode, calcsize, ih h]
  | case3 n fmt v vs ih =>
    rw [Bool.and_eq_true] at h
    simp [encode, calcsize, ih h.2]
  | case4 n fmt b vs ih =>
    rw [encode, length_append, ih h, calcsize, Item.size, length_take, length_append, length_zeros]
    omega
  | case5 => simp at h

theorem pack_eq_ok (h : fits fmt vs = true) : pack fmt vs = .ok (encode fmt vs) := if_pos h

variable {bs : Bytes}

theorem pack_ok_iff : pack fmt vs = .ok bs ↔ fits fmt vs = true ∧ bs = encode fmt vs := by
  unfold pack
  split
  · rename_i h; simp [h, eq_comm]
  · rename_i h; simp [h]

/-- The values also have the exact widths of their string items, so that nothing is cut or filled.
-/
def exact : Fmt → List Val → Bool
  | [], [] => true
  | .pad _ :: fmt, vs => exact fmt vs
  | .uint n :: fmt, .int v :: vs => decide (v < 256 ^ n) && exact fmt vs
  | .str n :: fmt, .bytes b :: vs => decide (b.length = n) && exact fmt vs
  | _, _ => false

theorem fits_of_exact (h : exact fmt vs = true) : fits fmt vs = true := by
  fun_induction exact fmt vs with
  | case1 => rfl
  | case2 n fmt vs ih => rw [fits, ih h]
  | case3 n fmt v vs ih =>
    rw [Bool.and_eq_true] at h
    rw [fits, ih h.2, h.1, Bool.and_self]
  | case4 n fmt b vs ih =>
    rw [Bool.and_eq_true] at h
    rw [fits, ih h.2]
  | case5 => simp at h

theorem decode_encode (h : exact fmt vs = true) (rest : Bytes) :
    decode fmt (encode fmt vs ++ rest) = vs := by
  fun_induction exact fmt vs with
  | case1 => rfl
  | case2 n fmt vs ih =>
    rw [encode, decode, append_assoc, drop_left' (length_zeros n), ih h]
  | case3 n fmt v vs ih =>
    rw [Bool.and_eq_true, decide_eq_true_eq] at h
    rw [encode, decode, append_assoc, drop_left' (length_beEncode n v),
      take_left' (length_beEncode n v), ih h.2, beDecode_beEncode n v h.1]
  | case4 n fmt b vs ih =>
    rw [Bool.and_eq_true, decide_eq_true_eq] at h
    obtain ⟨hb, hvs⟩ := h
    rw [encode, decode, take_left' hb, append_assoc, drop_left' hb, take_left' hb, ih hvs]
  | case5 => simp at h

variable {buf : Bytes} {off : Nat}

/-- Unpacking where the packed values stand gives them back. -/
theorem unpackFrom_at (h : exact fmt vs = true) (hpos : 0 < calcsize fmt)
    (hat : At buf off (encode fmt vs)) :
    unpackFrom fmt buf off = .ok vs := by
  have hlen := length_encode (fits_of_exact h)
  have hne : encode fmt vs ≠ [] := by
    intro he
    rw [he, length_nil] at hlen
    omega
  have hle := hat.length_le hne
  obtain ⟨rest, hrest⟩ := hat
  rw [unpackFrom, if_pos (by omega), ← hrest, decode_encode h]

theorem calcsize_append (a b : Fmt) : calcsize (a ++ b) = calcsize a + calcsize b := by
  induction a with
  | nil => simp [calcsize]
  | cons item a ih => simp [calcsize, ih]; omega

theorem decode_append_pad (fmt : Fmt) (n : Nat) (b : Bytes) :
    decode (fmt ++ [x n]) b = decode fmt b := by
  fun_induction decode fmt b <;> simp_all [decode]

/-- Pad bytes at the end of a format are skipped, whatever stands there. -/
theorem unpackFrom_pad {buf r : Bytes} {off n : Nat} (h : exact fmt vs = true)
    (hpos : 0 < calcsize fmt) (hr : n ≤ r.length) (hat : At buf off (encode fmt vs ++ r)) :
    unpackFrom (fmt ++ [x n]) buf off = .ok vs := by
  have hlen := length_encode (fits_of_exact h)
  have hne : encode fmt vs ++ r ≠ [] := by
    intro he
    have := congrArg List.length he
    rw [length_append, hlen, length_nil] at this
    omega
  have hle := hat.length_le hne
  rw [length_append] at hle
  have hfmt := unpackFrom_at h hpos hat.left
  rw [unpackFrom, if_pos (by omega)] at hfmt
  rw [unpackFrom, calcsize_append, if_pos (by simp only [calcsize, Item.size]; omega),
    decode_append_pad, hfmt]

/-- Numbers have no width to miss. -/
theorem exact_of_fits (hfmt : ∀ n, .str n ∉ fmt) (h : fits fmt vs = true) :
    exact fmt vs = true := by
  fun_induction fits fmt vs with
  | case1 => rfl
  | case2 n fmt vs ih => exact ih (fun m hm => hfmt m (mem_cons_of_mem _ hm)) h
  | case3 n fmt v vs ih =>
    rw [Bool.and_eq_true] at h
    rw [exact, Bool.and_eq_true]
    exact ⟨h.1, ih (fun m hm => hfmt m (mem_cons_of_mem _ hm)) h.2⟩
  | case4 n fmt b vs ih => exact (hfmt n mem_cons_self).elim
  | case5 => simp at h

theorem exact_of_fits_int {ns : List Nat} (h : fits fmt (ns.map .int) = true) :
    exact fmt (ns.map .int) = true := by
  induction fmt generalizing ns with
  | nil => cases ns <;> simp_all [fits, exact]
  | cons item fmt ih =>
    cases item with
    | pad n => exact ih h
    | uint n =>
      cases ns with
      | nil => simp [fits] at h
      | cons v ns =>
        rw [map_cons, fits, Bool.and_eq_true] at h
        rw [map_cons, exact, Bool.and_eq_true]
        exact ⟨h.1, ih h.2⟩
    | str n => cases ns <;> simp [fits] at h

theorem length_of_pack (h : pack fmt vs = .ok bs) : bs.length = calcsize fmt := by
  obtain ⟨hfits, rfl⟩ := pack_ok_iff.1 h
  exact length_encode hfits

theorem unpackFrom_of_pack {fmt : Fmt} {ns : List Nat} {buf bs : Bytes} {off : Nat}
    (h : pack fmt (ns.map .int) = .ok bs) (hpos : 0 < calcsize fmt) (hat : At buf off bs) :
    unpackFrom fmt buf off = .ok (ns.map .int) := by
  obtain ⟨hfits, rfl⟩ := pack_ok_iff.1 h
  exact unpackFrom_at (exact_of_fits_int hfits) hpos hat

theorem unpack_encode (h : exact fmt vs = true) : unpack fmt (encode fmt vs) = .ok vs := by
  have hd := decode_encode h []
  rw [append_nil] at hd
  rw [unpack, if_pos (length_encode (fits_of_exact h)), hd]

/-- Unpacking the slice where the packed values stand gives them back. -/
theorem unpack_slice (h : exact fmt vs = true) (hat : At buf off (encode fmt vs)) :
    unpack fmt (slice buf off (off + calcsize fmt)) = .ok vs := by
  rw [← length_encode (fits_of_exact h), hat.slice_eq, unpack_encode h]

/-! ## Runs of equal items -/

/-- `for v in vs: data += struct.pack(item, v)` -/
def packEach (item : Item) : List Nat → PyResult Bytes
  | [] => .ok []
  | v :: vs => do
    let b ← pack [item] [.int v]
    let bs ← packEach item vs
    return b ++ bs

/-- Unpack the slices of `count` consecutive items, starting at `off`. -/
def unpackEach (item : Item) (buf : Bytes) : Nat → Nat → PyResult (List Nat)
  | _, 0 => .ok []
  | off, count + 1 => do
    let [.int v] ← unpack [item] (slice buf off (off + item.size)) | throw .valueError
    let vs ← unpackEach item buf (off + item.size) count
    return v :: vs

variable {n : Nat}

section

variable {vs : List Nat}

theorem packEach_uint (h : ∀ v ∈ vs, v < 256 ^ n) :
    packEach (.uint n) vs = .ok (vs.map (beEncode n)).flatten := by
  induction vs with
  | nil => rfl
  | cons v vs ih =>
    have hfit : fits [.uint n] [.int v] = true := by simpa [fits] using h v mem_cons_self
    rw [packEach, pack_eq_ok hfit, ih fun v' hv => h v' (mem_cons_of_mem v hv)]
    simp [encode]

theorem packEach_ok (h : packEach (.uint n) vs = .ok bs) : ∀ v ∈ vs, v < 256 ^ n := by
  induction vs generalizing bs with
  | nil => simp
  | cons v vs ih =>
    obtain ⟨b, hb, h⟩ := bind_eq_ok.1 h
    obtain ⟨bs', hbs', -⟩ := bind_eq_ok.1 h
    have hfit := (pack_ok_iff.1 hb).1
    intro v' hv'
    rcases mem_cons.1 hv' with rfl | hv'
    · simpa [fits] using hfit
    · exact ih hbs' v' hv'

theorem packEach_eq_ok_iff : packEach (.uint n) vs = .ok bs ↔
      (∀ v ∈ vs, v < 256 ^ n) ∧ bs = (vs.map (beEncode n)).flatten := by
  constructor
  · intro h
    have hlt := packEach_ok h
    rw [packEach_uint hlt] at h
    exact ⟨hlt, (Except.ok.inj h).symm⟩
  · rintro ⟨hlt, rfl⟩
    exact packEach_uint hlt

/-- Where an item of a run stands. -/
theorem at_flatten_getD (hat : At buf off (vs.map (beEncode n)).flatten) {i : Nat}
    (hi : i < vs.length) :
    At buf (off + n * i) (beEncode n (vs.getD i 0)) := by
  induction vs generalizing off i with
  | nil => cases hi
  | cons v vs ih =>
    cases i with
    | zero => exact hat.left
    | succ i =>
      have hrest := hat.right
      rw [length_beEncode] at hrest
      have hitem := ih hrest (Nat.lt_of_succ_lt_succ hi)
      rw [Nat.mul_succ, Nat.add_comm (n * i), ← Nat.add_assoc]
      exact hitem

/-- Items packed one after another are unpacked one after another. -/
theorem unpackEach_at (h : ∀ v ∈ vs, v < 256 ^ n) (hat : At buf off (vs.map (beEncode n)).flatten) :
    unpackEach (.uint n) buf off vs.length = .ok vs := by
  induction vs generalizing off with
  | nil => rfl
  | cons v vs ih =>
    have hex : exact [.uint n] [.int v] = true := by
      simpa [exact] using h v mem_cons_self
    have hv : At buf off (encode [.uint n] [.int v]) := by simpa [encode] using hat.left
    have hslice : unpack [.uint n] (slice buf off (off + n)) = .ok [.int v] := by
      simpa [calcsize] using unpack_slice hex hv
    have hrest := hat.right
    rw [length_beEncode] at hrest
    simp [unpackEach, Item.size, hslice, ih (fun v' hv' => h v' (mem_cons_of_mem v hv')) hrest]

end

/-- What an unpacked list looks like: one value for each integer or string item. -/
def arity : Fmt → Nat
  | [] => 0
  | .pad _ :: fmt => arity fmt
  | _ :: fmt => arity fmt + 1

end BebaCtrl.Struct
