import BebaCtrl.Lib.Codec

/-!
# The versions of a hello message

The version bitmap of a hello message has a bit for each version the peer speaks, in words of 32
bits. `versionBitmapParser_exact_iff` says when the parser returns all of them.
-/

namespace BebaCtrl

open Struct List

structure OFPHelloElemVersionBitmap where
  versions : List Nat
  length : Nat
  bitmaps : List Nat
  deriving DecidableEq, Repr

namespace OFPHello

def ofphetVersionbitmap : Nat := 1

/-- The bits are looked for up to number 30 of each bitmap. -/
def versionsOf (bitmaps : List Nat) : List Nat :=
  bitmaps.zipIdx.flatMap fun (bitmap, i) =>
    ((List.range 31).filter fun shift => bitmap.testBit shift).map fun shift => i * 32 + shift

def versionBitmapParser (buf : Bytes) (offset : Nat) : PyResult OFPHelloElemVersionBitmap := do
  let [.int type, .int length] ← unpackFrom [H, H] buf offset | throw .valueError
  pyAssert (type = ofphetVersionbitmap)
  let bitmaps ← (List.range ((length - 4) / 4)).mapM fun i => do
    let [.int bitmap] ← unpackFrom [I] buf (offset + 4 + 4 * i) | throw .valueError
    return bitmap
  return ⟨versionsOf bitmaps, length, bitmaps⟩

/-! ## The versions of a bitmap -/

theorem mem_versionsOf {bitmaps : List Nat} {v : Nat} :
    v ∈ versionsOf bitmaps ↔ (bitmaps.getD (v / 32) 0).testBit (v % 32) = true ∧ v % 32 < 31 := by
  simp only [versionsOf, mem_flatMap, Prod.exists, mem_zipIdx_iff_getElem?, mem_map,
    mem_filter, mem_range]
  constructor
  · rintro ⟨bitmap, i, hget, shift, ⟨hlt, hbit⟩, rfl⟩
    have hdiv : (i * 32 + shift) / 32 = i := by omega
    have hmod : (i * 32 + shift) % 32 = shift := by omega
    rw [hdiv, hmod, getD_eq_getElem?_getD, hget]
    exact ⟨hbit, hlt⟩
  · rintro ⟨hbit, hlt⟩
    cases hget : bitmaps[v / 32]? with
    | none =>
      rw [getD_eq_getElem?_getD, hget] at hbit
      simp at hbit
    | some bitmap =>
      rw [getD_eq_getElem?_getD, hget] at hbit
      exact ⟨bitmap, v / 32, hget, v % 32, ⟨hlt, hbit⟩, by omega⟩

theorem pairwise_versionsOf (bitmaps : List Nat) : (versionsOf bitmaps).Pairwise (· < ·) := by
  rw [versionsOf, pairwise_flatMap]
  constructor
  · rintro ⟨bitmap, i⟩ -
    rw [pairwise_map]
    refine ((pairwise_lt_range).filter _).imp fun hlt => ?_
    omega
  · have hidx : (bitmaps.zipIdx.map Prod.snd).Pairwise (· < ·) := by
      rw [zipIdx_map_snd]
      exact pairwise_lt_range'
    refine (pairwise_map.1 hidx).imp fun {p q} hlt v hv w hw => ?_
    simp only [mem_map, mem_filter, mem_range] at hv hw
    omega

/-- An element of a hello message with these bitmaps. -/
def versionBitmapBytes (bitmaps : List Nat) : Bytes :=
  encode [H, H] [.int ofphetVersionbitmap, .int (4 + 4 * bitmaps.length)] ++
    (bitmaps.map (beEncode 4)).flatten

theorem versionBitmapParser_bytes {bitmaps : List Nat}
    (hbits : ∀ bitmap ∈ bitmaps, bitmap < 256 ^ 4)
    (hlen : 4 + 4 * bitmaps.length < 256 ^ 2) {buf : Bytes} {offset : Nat}
    (hat : At buf offset (versionBitmapBytes bitmaps)) :
    versionBitmapParser buf offset =
      .ok ⟨versionsOf bitmaps, 4 + 4 * bitmaps.length, bitmaps⟩ := by
  have hex : exact [H, H] [.int ofphetVersionbitmap, .int (4 + 4 * bitmaps.length)] = true := by
    simpa [Struct.exact, ofphetVersionbitmap] using hlen
  have hwords : At buf (offset + 4) (bitmaps.map (beEncode 4)).flatten := At.right hat
  have hread : ∀ i ∈ List.range bitmaps.length,
      (do
        let [.int bitmap] ← unpackFrom [I] buf (offset + 4 + 4 * i) | throw PyErr.valueError
        return bitmap : PyResult Nat) = .ok (bitmaps.getD i 0) := by
    intro i hi
    have hi' : i < bitmaps.length := mem_range.1 hi
    have hword : exact [I] [.int (bitmaps.getD i 0)] = true := by
      have hlt := hbits (bitmaps.getD i 0) (by simp [hi'])
      simpa [Struct.exact] using hlt
    have hatWord : At buf (offset + 4 + 4 * i) (encode [I] [.int (bitmaps.getD i 0)]) := by
      simpa [encode] using at_flatten_getD hwords hi'
    rw [unpackFrom_at hword (by decide) hatWord]
    rfl
  have hcount : (4 + 4 * bitmaps.length - 4) / 4 = bitmaps.length := by omega
  have hmap : (List.range bitmaps.length).map (bitmaps.getD · 0) = bitmaps := by
    refine ext_getElem (by simp) fun i hi hi' => ?_
    simp [hi']
  rw [versionBitmapParser, unpackFrom_at hex (by decide) hat.left]
  simp only [bind, Except.bind, pyAssert_pos, hcount]
  have hall := mapM_eq_map hread
  rw [hmap] at hall
  simp only [bind, Except.bind] at hall
  rw [hall]
  rfl

/-- The versions are the increasing list of the bits that are set when bit 31 of every bitmap is
not. -/
theorem versionBitmapParser_exact_iff {bitmaps : List Nat}
    (hbits : ∀ bitmap ∈ bitmaps, bitmap < 256 ^ 4) (hlen : 4 + 4 * bitmaps.length < 256 ^ 2)
    {buf : Bytes} {offset : Nat} (hat : At buf offset (versionBitmapBytes bitmaps)) :
    (∃ elem, versionBitmapParser buf offset = .ok elem ∧ elem.versions.Pairwise (· < ·) ∧
      ∀ v, v ∈ elem.versions ↔ (bitmaps.getD (v / 32) 0).testBit (v % 32) = true) ↔
    ∀ bitmap ∈ bitmaps, bitmap.testBit 31 = false := by
  rw [versionBitmapParser_bytes hbits hlen hat]
  constructor
  · rintro ⟨elem, helem, -, hall⟩ bitmap hmem
    cases helem
    obtain ⟨i, hi, rfl⟩ := getElem_of_mem hmem
    cases hbit : bitmaps[i].testBit 31 with
    | false => rfl
    | true =>
      have hdiv : (32 * i + 31) / 32 = i := by omega
      have hmod : (32 * i + 31) % 32 = 31 := by omega
      have hset : (bitmaps.getD ((32 * i + 31) / 32) 0).testBit ((32 * i + 31) % 32) = true := by
        rw [hdiv, hmod, getD_eq_getElem?_getD, getElem?_eq_getElem hi, Option.getD_some, hbit]
      have hlt := (mem_versionsOf.1 ((hall _).2 hset)).2
      omega
  · intro hclear
    refine ⟨_, rfl, pairwise_versionsOf bitmaps, fun v => ?_⟩
    rw [mem_versionsOf, and_iff_left_iff_imp]
    intro hbit
    rcases Nat.lt_or_ge (v % 32) 31 with hlt | hge
    · exact hlt
    · have hmod : v % 32 = 31 := by omega
      rcases Nat.lt_or_ge (v / 32) bitmaps.length with hi | hi
      · rw [hmod, getD_eq_getElem?_getD, getElem?_eq_getElem hi, Option.getD_some,
          hclear _ (getElem_mem hi)] at hbit
        cases hbit
      · rw [getD_eq_getElem?_getD, getElem?_eq_none hi] at hbit
        simp at hbit

theorem versionBitmapParser_exact_small :
    ∃ elem, versionBitmapParser (versionBitmapBytes [0x12, 1]) 0 = .ok elem ∧
      elem.versions.Pairwise (· < ·) ∧
      ∀ v, v ∈ elem.versions ↔ (getD [0x12, 1] (v / 32) 0).testBit (v % 32) = true := by
  have hat : At (versionBitmapBytes [0x12, 1]) 0 (versionBitmapBytes [0x12, 1]) := prefix_rfl
  exact (versionBitmapParser_exact_iff (by decide) (by decide) hat).2 (by decide)

/-- Version 31 is announced and not in the list. -/
theorem versionBitmapParser_loses_31 :
    versionBitmapParser (versionBitmapBytes [0x80000010]) 0 = .ok ⟨[4], 8, [0x80000010]⟩ ∧
      (0x80000010).testBit 31 = true := by
  decide +kernel

end OFPHello

end BebaCtrl
