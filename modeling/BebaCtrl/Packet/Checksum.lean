import BebaCtrl.Lib.Bytes
import BebaCtrl.Lib.Heap
import Mathlib.Data.Int.ModEq
import Mathlib.Data.List.Infix
import Mathlib.Tactic.LinearCombination

/-!
# Checksums

`checksum` adds up the words of a packet in the byte order of the host, a little-endian one here,
and folds the carries twice; the Internet checksum adds words of the network with an end-around
carry. Both are the sum modulo 65535, where exchanging the bytes of a word is multiplication by 256.

`fletcher_checksum` solves two equations modulo 255 for the two check bytes. It works on a copy of
the data, so it is modelled over a store of byte arrays.
-/

namespace BebaCtrl.PacketUtils

open List

def carryAroundAdd (a b : Nat) : Nat :=
  let c := a + b
  (c &&& 0xffff) + (c >>> 16)

/-- `array.array('H', data)` on a little-endian host. -/
def hostWords : Bytes → List Nat
  | a :: b :: rest => (a.toNat + 256 * b.toNat) :: hostWords rest
  | _ => []

/-- `socket.ntohs` on a little-endian host. -/
def ntohs (x : Nat) : Nat := 256 * (x % 256) + x / 256

def pad (data : Bytes) : Bytes := if data.length % 2 ≠ 0 then data ++ [0] else data

def checksum (data : Bytes) : Nat :=
  let s := (hostWords (pad data)).sum
  let s := (s &&& 0xffff) + (s >>> 16)
  let s := s + (s >>> 16)
  -- `~s & 0xffff`
  ntohs (0xffff - (s &&& 0xffff))

/-! ## The Internet checksum -/

/-- The words of the network; the last one of odd data is filled up with a zero byte. -/
def netWords : Bytes → List Nat
  | a :: b :: rest => (256 * a.toNat + b.toNat) :: netWords rest
  | [a] => [256 * a.toNat]
  | [] => []

/-- The complement of the sum with end-around carry. -/
def internetChecksum (data : Bytes) : Nat := 0xffff - (netWords data).foldl carryAroundAdd 0

/-- What is left of a sum when carries are added to it again: 65535 stands for its multiples. -/
def folded (s : Nat) : Nat := if s = 0 then 0 else (s - 1) % 65535 + 1

theorem and_add_shiftRight (s : Nat) : (s &&& 0xffff) + (s >>> 16) = s % 65536 + s / 65536 := by
  rw [show 0xffff = 2 ^ 16 - 1 by rfl, Nat.and_two_pow_sub_one_eq_mod, Nat.shiftRight_eq_div_pow]

theorem carryAroundAdd_folded (s : Nat) {w : Nat} (hw : w < 65536) :
    carryAroundAdd (folded s) w = folded (s + w) := by
  rw [carryAroundAdd, and_add_shiftRight]
  unfold folded
  split <;> split <;> omega

theorem foldl_carryAroundAdd (s : Nat) {ws : List Nat} (h : ∀ w ∈ ws, w < 65536) :
    ws.foldl carryAroundAdd (folded s) = folded (s + ws.sum) := by
  induction ws generalizing s with
  | nil => rfl
  | cons w ws ih =>
    rw [foldl_cons, carryAroundAdd_folded s (h w (by simp)), ih _ fun w hw => h w (by simp [hw]),
      sum_cons, Nat.add_assoc]

variable {data : Bytes}

theorem lt_of_mem_netWords : ∀ w ∈ netWords data, w < 65536 := by
  fun_induction netWords data with
  | case1 a b rest ih =>
    have ha := a.toNat_lt
    have hb := b.toNat_lt
    intro w hw
    rcases mem_cons.1 hw with rfl | hw
    · omega
    · exact ih w hw
  | case2 a =>
    have ha := a.toNat_lt
    simp
    omega
  | case3 => simp

theorem internetChecksum_eq (data : Bytes) :
    internetChecksum data = 65535 - folded (netWords data).sum := by
  rw [internetChecksum, show 0 = folded 0 by rfl, foldl_carryAroundAdd 0 lt_of_mem_netWords,
    Nat.zero_add]

theorem folded_add_mul {s : Nat} (h : s ≠ 0) (c : Nat) : folded (s + 65535 * c) = folded s := by
  unfold folded
  split <;> omega

/-- Two folds are enough below 2 ^ 31. -/
theorem checksum_eq (h : (hostWords (pad data)).sum ≤ 65535 * 32768) :
    checksum data = ntohs (65535 - folded (hostWords (pad data)).sum) := by
  have hmask : ∀ s, s &&& 0xffff = s % 65536 := fun s => Nat.and_two_pow_sub_one_eq_mod s 16
  simp only [checksum, hmask, Nat.shiftRight_eq_div_pow]
  congr 2
  set s := (hostWords (pad data)).sum
  by_cases hs : s = 0
  · simp [hs, folded]
  · -- the first fold leaves the sum of the two halves, which has at most one carry
    have hfold := folded_add_mul (show s % 65536 + s / 65536 ≠ 0 by omega) (s / 65536)
    rw [show s % 65536 + s / 65536 + 65535 * (s / 65536) = s by omega] at hfold
    have hlt : s % 65536 + s / 65536 < 65536 + 32768 := by omega
    rw [hfold, folded, show 2 ^ 16 = 65536 by rfl]
    generalize s % 65536 + s / 65536 = t at hlt ⊢
    by_cases ht : t < 65536
    · split <;> omega
    · split <;> omega

/-- The two sums differ by the factor 256 modulo 65535. -/
theorem hostWords_netWords (data : Bytes) :
    ∃ odd, 256 * (hostWords (pad data)).sum = (netWords data).sum + 65535 * odd ∧
      ((netWords data).sum = 0 ↔ (hostWords (pad data)).sum = 0) ∧
      (hostWords (pad data)).sum ≤ 65535 * ((data.length + 1) / 2) := by
  fun_induction netWords data with
  | case1 a b rest ih =>
    obtain ⟨odd, hsum, hzero, hle⟩ := ih
    have hpad : pad (a :: b :: rest) = a :: b :: pad rest := by
      simp only [pad, length_cons]
      split <;> split <;> first | rfl | omega
    have ha := a.toNat_lt
    have hb := b.toNat_lt
    refine ⟨odd + b.toNat, ?_⟩
    simp only [hpad, hostWords, sum_cons, length_cons]
    omega
  | case2 a =>
    have ha := a.toNat_lt
    simp [pad, hostWords]
    omega
  | case3 => exact ⟨0, by simp [pad, hostWords]⟩

theorem ntohs_compl_folded {host net odd : Nat} (hsum : 256 * host = net + 65535 * odd)
    (hzero : net = 0 ↔ host = 0) : ntohs (65535 - folded host) = 65535 - folded net := by
  unfold ntohs folded
  split <;> split <;> omega

theorem checksum_eq_internetChecksum (h : data.length ≤ 65535) :
    checksum data = internetChecksum data := by
  obtain ⟨odd, hsum, hzero, hle⟩ := hostWords_netWords data
  rw [checksum_eq (by omega), ntohs_compl_folded hsum hzero, internetChecksum_eq]

variable {front : Bytes}

theorem sum_netWords_append (h : front.length % 2 = 0) (back : Bytes) :
    (netWords (front ++ back)).sum = (netWords front).sum + (netWords back).sum := by
  fun_induction netWords front with
  | case1 a b rest ih =>
    have ih := ih (by simp at h; omega)
    simp only [cons_append, netWords, sum_cons, ih]
    omega
  | case2 a => simp at h
  | case3 => simp

/-- The checksum is the Internet checksum, and a message that carries its own checksum in a field at
an even offset, which was zero before, has the checksum 0. -/
theorem checksum_correct :
    (∀ data : Bytes, data.length ≤ 65535 → checksum data = internetChecksum data) ∧
    ∀ front back : Bytes, front.length % 2 = 0 → (front ++ [0, 0] ++ back).length ≤ 65535 →
      checksum (front ++ beEncode 2 (checksum (front ++ [0, 0] ++ back)) ++ back) = 0 := by
  refine ⟨fun data => checksum_eq_internetChecksum, fun front back heven hlen => ?_⟩
  set value := checksum (front ++ [0, 0] ++ back) with hvalue
  rw [checksum_eq_internetChecksum hlen, internetChecksum_eq, append_assoc,
    sum_netWords_append heven] at hvalue
  rw [checksum_eq_internetChecksum (by simp at hlen ⊢; omega), internetChecksum_eq, append_assoc,
    sum_netWords_append heven]
  have hencode : netWords (beEncode 2 value ++ back) = value :: netWords back := by
    simp only [beEncode, nil_append, cons_append, netWords, UInt8.toNat_ofNat']
    congr 1
    omega
  have hzero : netWords ([0, 0] ++ back) = 0 :: netWords back := rfl
  rw [hzero, sum_cons] at hvalue
  rw [hencode, sum_cons]
  unfold folded at hvalue ⊢
  split at hvalue <;> split <;> omega

theorem checksum_correct_five :
    checksum [69, 0, 5, 220, 7] = internetChecksum [69, 0, 5, 220, 7] ∧
    checksum ([69, 0] ++ beEncode 2 (checksum ([69, 0] ++ [0, 0] ++ [7])) ++ [7]) = 0 :=
  ⟨checksum_correct.1 _ (by decide), checksum_correct.2 _ _ (by decide) (by decide)⟩

/-! ## The checksum of Fletcher -/

def modx : Nat := 4102

/-- The inner loop over the bytes of a chunk. -/
def addBytes (bytes : Bytes) (c : Nat × Nat) : Nat × Nat :=
  bytes.foldl (fun c d => (c.1 + d.toNat, c.2 + (c.1 + d.toNat))) c

/-- The sums are reduced once for each chunk. -/
def sumChunks (data : Bytes) (pos : Nat) (c : Nat × Nat) : Nat × Nat :=
  if pos < data.length then
    let tlen := min (data.length - pos) modx
    let c := addBytes (slice data pos (pos + tlen)) c
    sumChunks data (pos + tlen) (c.1 % 255, c.2 % 255)
  else c
termination_by data.length - pos
decreasing_by
  simp only [modx]
  omega

/-- `data[offset:offset + 2] = [a, b]` -/
def setTwo (data : Bytes) (offset : Nat) (a b : UInt8) : Bytes :=
  data.take offset ++ ([a, b] ++ data.drop (offset + 2))

/-- `x` and `y` from the two sums, where `m` is `length - offset - 1`. -/
def checkBytes (m c0 c1 : Int) : Int × Int :=
  let x := (m * c0 - c1) % 255
  let x := if x ≤ 0 then x + 255 else x
  let y := 510 - c0 - x
  (x, if y > 255 then y - 255 else y)

def fletcherChecksum (ref : Ref) (offset : Nat) (heap : Store Bytes) : Nat × Store Bytes :=
  -- `data = bytearray(data)` is a copy
  let copy := heap.next
  let data := setTwo (heap.read ref) offset 0 0
  let (c0, c1) := sumChunks data 0 (0, 0)
  let (x, y) := checkBytes (data.length - offset - 1) c0 c1
  let heap := (heap.alloc (heap.read ref)).write copy data
  let heap := heap.write copy (setTwo data offset (.ofNat x.toNat) (.ofNat y.toNat))
  ((x.toNat <<< 8) ||| (y.toNat &&& 0xff), heap)

def byteSum (data : Bytes) : Nat := (data.map UInt8.toNat).sum

/-- The sum of the sums of all initial parts. -/
def partialSums (data : Bytes) : Nat := (data.inits.map byteSum).sum

theorem byteSum_append (a b : Bytes) : byteSum (a ++ b) = byteSum a + byteSum b := by
  simp [byteSum]

theorem partialSums_concat (a : Bytes) (d : UInt8) :
    partialSums (a ++ [d]) = partialSums a + (byteSum a + d.toNat) := by
  simp [partialSums, byteSum, inits_append]

theorem partialSums_append (a b : Bytes) :
    partialSums (a ++ b) = partialSums a + b.length * byteSum a + partialSums b := by
  induction b using reverseRecOn with
  | nil => simp [partialSums, byteSum]
  | append_singleton b d ih =>
    rw [← append_assoc, partialSums_concat, ih, partialSums_concat, byteSum_append,
      length_append, length_singleton]
    ring

theorem addBytes_eq (bytes : Bytes) (c : Nat × Nat) :
    addBytes bytes c =
      (c.1 + byteSum bytes, c.2 + bytes.length * c.1 + partialSums bytes) := by
  induction bytes using reverseRecOn with
  | nil => simp [addBytes, partialSums, byteSum]
  | append_singleton bytes d ih =>
    rw [addBytes, foldl_concat, ← addBytes, ih, partialSums_concat, byteSum_append,
      length_append, length_singleton]
    simp only [byteSum, map_singleton, sum_singleton, Prod.mk.injEq]
    constructor <;> ring

/-- The sums of what was read so far, modulo 255. -/
def Sums (data : Bytes) (c : Nat × Nat) : Prop :=
  c.1 ≡ byteSum data [MOD 255] ∧ c.2 ≡ partialSums data [MOD 255]

variable {c : Nat × Nat}

theorem Sums.addBytes (h : Sums front c) (bytes : Bytes) :
    Sums (front ++ bytes) ((addBytes bytes c).1 % 255, (addBytes bytes c).2 % 255) := by
  rw [addBytes_eq]
  constructor
  · rw [byteSum_append]
    exact (Nat.mod_modEq _ _).trans (h.1.add_right _)
  · rw [partialSums_append]
    exact (Nat.mod_modEq _ _).trans ((h.2.add (h.1.mul_left _)).add_right _)

variable {pos : Nat}

theorem sums_sumChunks (h : Sums (data.take pos) c) :
    Sums data (sumChunks data pos c) := by
  fun_induction sumChunks data pos c with
  | case1 pos c hpos tlen c' ih =>
    refine ih ?_
    have hsplit : data.take (pos + tlen) = data.take pos ++ slice data pos (pos + tlen) := by
      rw [slice, Nat.add_sub_cancel_left, take_add]
    rw [hsplit]
    exact h.addBytes _
  | case2 pos c hpos => rwa [take_of_length_le (by omega)] at h

theorem sumChunks_lt (h : c.1 < 255) :
    (sumChunks data pos c).1 < 255 := by
  fun_induction sumChunks data pos c with
  | case1 pos c hpos tlen c' ih => exact ih (Nat.mod_lt _ (by decide))
  | case2 => exact h

/-- The check bytes solve the two equations. -/
theorem checkBytes_solves (m : Int) {c0 : Int} (h : 0 ≤ c0 ∧ c0 < 255) (c1 : Int) :
    (1 ≤ (checkBytes m c0 c1).1 ∧ (checkBytes m c0 c1).1 ≤ 255) ∧
    (1 ≤ (checkBytes m c0 c1).2 ∧ (checkBytes m c0 c1).2 ≤ 255) ∧
    255 ∣ c0 + ((checkBytes m c0 c1).1 + (checkBytes m c0 c1).2) ∧
    255 ∣ c1 + ((m + 1) * (checkBytes m c0 c1).1 + m * (checkBytes m c0 c1).2) := by
  have hx : (1 ≤ (checkBytes m c0 c1).1 ∧ (checkBytes m c0 c1).1 ≤ 255) ∧
      255 ∣ m * c0 - c1 - (checkBytes m c0 c1).1 := by
    simp only [checkBytes]
    split <;> omega
  have hy : (checkBytes m c0 c1).2 = if 510 - c0 - (checkBytes m c0 c1).1 > 255 then
      510 - c0 - (checkBytes m c0 c1).1 - 255 else 510 - c0 - (checkBytes m c0 c1).1 := rfl
  generalize (checkBytes m c0 c1).1 = x, (checkBytes m c0 c1).2 = y at hx hy ⊢
  obtain ⟨hx, k, hk⟩ := hx
  obtain ⟨j, hj⟩ : 255 ∣ c0 + (x + y) := by
    split at hy <;> omega
  refine ⟨hx, by split at hy <;> omega, ⟨j, hj⟩, m * j - k, ?_⟩
  linear_combination m * hj - hk

variable {offset : Nat}

/-- What the check bytes do to the sums, from the sums with zeros in their place. -/
theorem sums_setTwo (h : offset + 2 ≤ data.length) (a b : UInt8) :
    byteSum (setTwo data offset a b) =
      byteSum (setTwo data offset 0 0) + (a.toNat + b.toNat) ∧
    partialSums (setTwo data offset a b) =
      partialSums (setTwo data offset 0 0) +
        ((data.length - offset) * a.toNat + (data.length - offset - 1) * b.toNat) := by
  obtain ⟨n, hn⟩ : ∃ n, data.length = offset + 2 + n := Nat.exists_eq_add_of_le h
  have hback : (data.drop (offset + 2)).length = n := by simp [hn]
  constructor
  · simp only [setTwo, byteSum_append]
    simp [byteSum]
    omega
  · simp only [setTwo, partialSums_append, hback]
    simp [partialSums, byteSum, hn, show offset + 2 + n - offset = n + 2 by omega]
    ring

theorem setTwo_setTwo (h : offset + 2 ≤ data.length)
    (a b a' b' : UInt8) :
    setTwo (setTwo data offset a b) offset a' b' = setTwo data offset a' b' := by
  have hfront : (data.take offset).length = offset := length_take_of_le (by omega)
  simp [setTwo, drop_append, hfront]

/-- With the check bytes in place both sums are 0 modulo 255. -/
theorem checkBytes_check (h : offset + 2 ≤ data.length)
    (hsums : Sums (setTwo data offset 0 0) c) (hlt : c.1 < 255) :
    ∃ x y : Nat, checkBytes (data.length - offset - 1) c.1 c.2 = ((x : Int), (y : Int)) ∧
      (1 ≤ x ∧ x ≤ 255) ∧ (1 ≤ y ∧ y ≤ 255) ∧
      byteSum (setTwo data offset (.ofNat x) (.ofNat y)) % 255 = 0 ∧
      partialSums (setTwo data offset (.ofNat x) (.ofNat y)) % 255 = 0 := by
  obtain ⟨n, hn⟩ := Nat.exists_eq_add_of_le h
  have hm : (data.length : Int) - offset - 1 = n + 1 := by omega
  have hsolves := checkBytes_solves (n + 1) (show 0 ≤ (c.1 : Int) ∧ (c.1 : Int) < 255 by omega) c.2
  rw [hm]
  generalize checkBytes (n + 1) c.1 c.2 = bytes at hsolves ⊢
  obtain ⟨x, y⟩ := bytes
  obtain ⟨hx, hy, hbytes, hpartial⟩ := hsolves
  lift x to ℕ using by omega
  lift y to ℕ using by omega
  have hcheck := sums_setTwo h (.ofNat x) (.ofNat y)
  rw [UInt8.toNat_ofNat_of_lt' (show x < 256 by omega),
    UInt8.toNat_ofNat_of_lt' (show y < 256 by omega)] at hcheck
  have hc0 : c.1 % 255 = _ := hsums.1
  have hc1 : c.2 % 255 = _ := hsums.2
  refine ⟨x, y, rfl, by omega, by omega, ?_, ?_⟩
  · omega
  · have hcast : (((data.length - offset) * x + (data.length - offset - 1) * y : Nat) : Int) =
        (n + 1 + 1) * x + (n + 1) * y := by
      rw [show data.length - offset = n + 2 by omega]
      push_cast
      ring
    rw [← hcast] at hpartial
    omega

theorem shiftLeft_or_and (x : Nat) {y : Nat} (hy : y ≤ 255) :
    ((x <<< 8) ||| (y &&& 0xff)) = 256 * x + y := by
  rw [show 0xff = 2 ^ 8 - 1 by rfl, Nat.and_two_pow_sub_one_of_lt_two_pow (by omega),
    ← Nat.shiftLeft_add_eq_or_of_lt (by omega), Nat.shiftLeft_eq]
  omega

/-- The data of the caller stay as they are, what stands in the place of the check bytes does not
matter, and the result is the two check bytes. -/
theorem fletcherChecksum_solves (heap : Store Bytes) (ref : Ref) (offset : Nat)
    (href : ref < heap.next) (h : offset + 2 ≤ (heap.read ref).length) :
    (fletcherChecksum ref offset heap).2.read ref = heap.read ref ∧
    (∀ (heap' : Store Bytes) (ref' : Ref) (a b : UInt8),
      heap'.read ref' = setTwo (heap.read ref) offset a b →
      (fletcherChecksum ref' offset heap').1 = (fletcherChecksum ref offset heap).1) ∧
    ∃ x y : Nat, (fletcherChecksum ref offset heap).1 = 256 * x + y ∧
      (1 ≤ x ∧ x ≤ 255) ∧ (1 ≤ y ∧ y ≤ 255) ∧
      byteSum (setTwo (heap.read ref) offset (.ofNat x) (.ofNat y)) % 255 = 0 ∧
      partialSums (setTwo (heap.read ref) offset (.ofNat x) (.ofNat y)) % 255 = 0 := by
  refine ⟨?_, fun heap' ref' a b hread => ?_, ?_⟩
  · have hne : ref ≠ heap.next := Nat.ne_of_lt href
    simp [fletcherChecksum, Store.read_write_of_ne _ _ hne, Store.read_alloc_of_ne _ _ hne]
  · simp only [fletcherChecksum, hread, setTwo_setTwo h]
  · have hlength : (setTwo (heap.read ref) offset 0 0).length = (heap.read ref).length := by
      simp [setTwo]
      omega
    obtain ⟨x, y, heq, hx, hy, hsums⟩ := checkBytes_check h
      (sums_sumChunks (show Sums (List.take 0 _) (0, 0) from ⟨rfl, rfl⟩))
      (sumChunks_lt (show (0, 0).1 < 255 by decide))
    refine ⟨x, y, ?_, hx, hy, hsums⟩
    simp only [fletcherChecksum, hlength]
    rw [heq]
    exact shiftLeft_or_and x hy.2

theorem fletcherChecksum_solves_four :
    let heap : Bytes → Store Bytes := fun data => ⟨fun _ => data, 1⟩
    (fletcherChecksum 0 1 (heap [1, 9, 9, 1])).2.read 0 = [1, 9, 9, 1] ∧
    (fletcherChecksum 0 1 (heap [1, 5, 6, 1])).1 = (fletcherChecksum 0 1 (heap [1, 9, 9, 1])).1 ∧
    ∃ x y : Nat, (fletcherChecksum 0 1 (heap [1, 9, 9, 1])).1 = 256 * x + y ∧
      byteSum [1, .ofNat x, .ofNat y, 1] % 255 = 0 ∧
      partialSums [1, .ofNat x, .ofNat y, 1] % 255 = 0 := by
  intro heap
  obtain ⟨hsame, hany, x, y, hxy, -, -, hsum, hpartial⟩ :=
    fletcherChecksum_solves (heap [1, 9, 9, 1]) 0 1 (by decide) (by decide)
  exact ⟨hsame, hany (heap [1, 5, 6, 1]) 0 5 6 rfl, x, y, hxy, hsum, hpartial⟩

end BebaCtrl.PacketUtils
