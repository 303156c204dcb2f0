import BebaCtrl.Bgp.Serialize
import BebaCtrl.Bgp.WireFormat

/-!
# Prefixes, serialized and parsed again

What may be lost of a prefix on its way over the wire: the bits behind it are cleared, and where the
label stack of a VPN prefix ends is guessed from the bytes. `NlriFits.makeNlri_iff` says which
prefixes come back as they were.
-/

namespace BebaCtrl.Bgp.Wire

open Struct List

theorem bind_pure_iff {α β : Type} {x : PyResult α} {f : α → β} (hf : Function.Injective f)
    {a : α} : (x >>= fun a => pure (f a)) = .ok (f a) ↔ x = .ok a := by
  cases x with
  | error e => simp
  | ok b => simp [hf.eq_iff]

/-! ## The bits of a prefix -/

/-- The bits behind the first ones are zero. -/
def NoHostBits (bits : Nat) (addr : Bytes) : Prop := 2 ^ (8 * addr.length - bits) ∣ beDecode addr

/-- The octets that hold the first bits, without the bits behind them. -/
def clip (bits : Nat) (addr : Bytes) : Bytes :=
  addr.take (bits / 8) ++
    if bits % 8 = 0 then []
    else ((addr.drop (bits / 8)).take 1).map (· &&& UInt8.ofNat (0xff00 >>> (bits % 8)))

variable {bits : Nat}

theorem length_clip {addr : Bytes} (h : bits ≤ 8 * addr.length) :
    (clip bits addr).length = (bits + 7) / 8 := by
  unfold clip
  split <;> simp <;> omega

/-- Whole octets in front of the address stay as they are. -/
theorem cutBin_append {bits : Nat} {front addr : Bytes} (h : bits ≤ 8 * addr.length) :
    cutBin (8 * front.length + bits) (front ++ addr) = .ok (front ++ clip bits addr) := by
  have hmod : (8 * front.length + bits) % 8 = bits % 8 := by omega
  have hbytes : (8 * front.length + bits + 7) / 8 = front.length + (bits + 7) / 8 := by omega
  simp only [cutBin, hmod, hbytes, clip]
  split
  · have hdiv : (bits + 7) / 8 = bits / 8 := by omega
    rw [hdiv, take_length_add_append, append_nil]
  · have hdiv : (bits + 7) / 8 = bits / 8 + 1 := by omega
    have hlt : bits / 8 < addr.length := by omega
    rw [hdiv, ← Nat.add_assoc, Nat.add_sub_cancel, getElem?_append_right (by omega),
      Nat.add_sub_cancel_left, getElem?_eq_getElem hlt, take_length_add_append,
      drop_eq_getElem_cons hlt, take_succ_cons, take_zero]
    simp

theorem cutBin_eq_ok {addr : Bytes} (h : bits ≤ 8 * addr.length) :
    cutBin bits addr = .ok (clip bits addr) := by
  have hcut := @cutBin_append bits [] addr h
  rwa [length_nil, Nat.mul_zero, Nat.zero_add] at hcut

/-- The address with the bits behind the prefix cleared. -/
def maskAddr (bits : Nat) (addr : Bytes) : Bytes :=
  clip bits addr ++ zeros (addr.length - (bits + 7) / 8)

theorem and_mask_eq : ∀ r < 8, ∀ b : UInt8,
    (b &&& UInt8.ofNat (0xff00 >>> r)).toNat = b.toNat / 2 ^ (8 - r) * 2 ^ (8 - r) := by
  have hnat : ∀ r < 8, ∀ n < 256, n &&& (0xff00 >>> r) % 256 = n / 2 ^ (8 - r) * 2 ^ (8 - r) := by
    decide +kernel
  intro r hr b
  exact hnat r hr b.toNat b.toNat_lt

variable {addr : Bytes}

theorem length_maskAddr (h : bits ≤ 8 * addr.length) :
    (maskAddr bits addr).length = addr.length := by
  rw [maskAddr, length_append, length_clip h, length_zeros]
  omega

theorem beDecode_append_zeros (bs : Bytes) (n : Nat) :
    beDecode (bs ++ zeros n) = beDecode bs * 256 ^ n := by
  have hzero : beDecode (zeros n) = 0 := beDecode_eq_zero_iff.2 (by rw [length_zeros])
  rw [beDecode_append, length_zeros, hzero, Nat.add_zero]

/-- A multiple of `k` in front is not touched. -/
theorem div_mul_of_dvd {k m : Nat} (hk : 0 < k) (hm : k ∣ m) (n : Nat) :
    (m + n) / k * k = m + n / k * k := by
  obtain ⟨c, rfl⟩ := hm
  rw [Nat.mul_add_div hk, Nat.add_mul, Nat.mul_comm c]

/-- As a number, the address loses its last bits. -/
theorem beDecode_maskAddr (h : bits ≤ 8 * addr.length) :
    beDecode (maskAddr bits addr) =
      beDecode addr / 2 ^ (8 * addr.length - bits) * 2 ^ (8 * addr.length - bits) := by
  obtain ⟨front, back, rfl, hfront⟩ : ∃ front back, addr = front ++ back ∧
      front.length = bits / 8 :=
    ⟨addr.take (bits / 8), addr.drop (bits / 8), (take_append_drop ..).symm, by simp; omega⟩
  have hexp : 8 * (front ++ back).length - bits = 8 * back.length - bits % 8 := by
    rw [length_append, hfront]
    omega
  rw [maskAddr, clip, hexp, ← hfront, take_left, drop_left]
  by_cases hmod : bits % 8 = 0
  · have hdiv : (front ++ back).length - (bits + 7) / 8 = back.length := by
      omega
    have hpow : 2 ^ (8 * back.length - bits % 8) = 256 ^ back.length := by
      rw [hmod, Nat.sub_zero, Nat.pow_mul]
    rw [if_pos hmod, append_nil, hdiv, hpow, beDecode_append_zeros, beDecode_append,
      div_mul_of_dvd (Nat.pow_pos (by decide)) (Nat.dvd_mul_left ..),
      Nat.div_eq_of_lt (beDecode_lt back), Nat.zero_mul, Nat.add_zero]
  · cases back with
    | nil => simp at h; omega
    | cons b back =>
      have hdiv : (front ++ b :: back).length - (bits + 7) / 8 = back.length := by
        rw [length_append, hfront, length_cons]
        omega
      set k := 8 - bits % 8 with hk
      have hpow : 2 ^ (8 * (b :: back).length - bits % 8) = 256 ^ back.length * 2 ^ k := by
        rw [show 8 * (b :: back).length - bits % 8 = 8 * back.length + k by
          omega, Nat.pow_add, Nat.pow_mul]
      have hdvd : 2 ^ k ∣ 256 := Nat.pow_dvd_pow 2 (Nat.sub_le 8 _)
      have htop : beDecode (front ++ b :: back) / 256 ^ back.length =
          beDecode front * 256 + b.toNat := by
        rw [← singleton_append, ← append_assoc, beDecode_append, Nat.mul_comm,
          Nat.mul_add_div (Nat.pow_pos (by decide)), Nat.div_eq_of_lt (beDecode_lt back),
          Nat.add_zero, beDecode_concat]
      have hoctet : beDecode (front ++ [b &&& UInt8.ofNat (0xff00 >>> (bits % 8))]) =
          (beDecode front * 256 + b.toNat) / 2 ^ k * 2 ^ k := by
        rw [beDecode_concat, and_mask_eq _ (Nat.mod_lt _ (by decide)), ← hk,
          div_mul_of_dvd (Nat.two_pow_pos k) (hdvd.mul_left _)]
      rw [if_neg hmod, hdiv, hpow, ← Nat.div_div_eq_div_mul, htop, Nat.mul_comm (256 ^ _),
        ← Nat.mul_assoc, ← hoctet, ← beDecode_append_zeros]
      rfl

theorem beDecode_inj {a b : Bytes} (h : a.length = b.length) : beDecode a = beDecode b ↔ a = b := by
  refine ⟨fun heq => ?_, congrArg beDecode⟩
  rw [← beEncode_beDecode a, ← beEncode_beDecode b, heq, h]

/-- The address comes back from its first bits when there are no others. -/
theorem clip_append_zeros_iff (h : bits ≤ 8 * addr.length) :
    clip bits addr ++ zeros (addr.length - (bits + 7) / 8) = addr ↔ NoHostBits bits addr := by
  change maskAddr bits addr = addr ↔ _
  rw [← beDecode_inj (length_maskAddr h), beDecode_maskAddr h]
  exact Nat.dvd_iff_div_mul_eq .. |>.symm

theorem clip_eq_take (h : bits ≤ 8 * addr.length) (hbits : NoHostBits bits addr) :
    clip bits addr = addr.take ((bits + 7) / 8) := by
  have hzeros := congrArg (List.take ((bits + 7) / 8)) ((clip_append_zeros_iff h).2 hbits)
  rwa [take_left' (length_clip h)] at hzeros

variable {bin : Bytes} {size : Nat}

theorem pad_eq_ok (h : bin.length ≤ size) :
    pad bin size = .ok (bin ++ zeros (size - bin.length)) := by
  simp [pad, pyAssert_pos h]

theorem pad_clip_iff (h : bits ≤ 8 * addr.length) :
    pad (clip bits addr) addr.length = .ok addr ↔ NoHostBits bits addr := by
  have hlen := length_clip h
  rw [pad_eq_ok (by omega), hlen, Except.ok.injEq, clip_append_zeros_iff h]

/-! ## Numbers on the wire -/

variable {a b : Bytes} {i j : Nat}

theorem slice_append_of_le (h : a.length ≤ i) :
    slice (a ++ b) i j = slice b (i - a.length) (j - a.length) := by
  rw [slice, slice, drop_append, drop_eq_nil_of_le h, nil_append]
  congr 1
  omega

variable {n : Nat}

theorem slice_append_left (h : a.length = n) : slice (a ++ b) 0 n = a := by
  subst h
  simp [slice]

theorem uint_append_of_le (h : a.length ≤ i) :
    uint (a ++ b) i j = uint b (i - a.length) (j - a.length) := by
  rw [uint, slice_append_of_le h, uint]

variable {v : Nat}

theorem uint_beEncode (h : v < 256 ^ n) (rest : Bytes) :
    uint (beEncode n v ++ rest) 0 n = v := by
  rw [uint, slice_append_left (length_beEncode n v), beDecode_beEncode n v h]

theorem uint_beEncode_self (h : v < 256 ^ n) : uint (beEncode n v) 0 n = v := by
  have h' := uint_beEncode h []
  rwa [append_nil] at h'

/-! ## Labels -/

/-- What is packed for the last label. -/
def bottomLabel (label : Nat) : Nat :=
  if label <<< 4 ≠ withdrawLabel then label <<< 4 ||| 1 else label <<< 4

theorem stackLabels_concat (labels : List Nat) (label : Nat) :
    stackLabels (labels ++ [label]) = labels.map (· <<< 4) ++ [bottomLabel label] := by
  simp only [stackLabels, bottomLabel, map_append, map_cons, map_nil,
    getLast?_concat, dropLast_concat]
  split <;> rfl

theorem labelsToBin_concat (labels : List Nat) (label : Nat) :
    labelsToBin (labels ++ [label]) =
      ((labels.map (· <<< 4)).map (beEncode 3)).flatten ++ beEncode 3 (bottomLabel label) := by
  simp [labelsToBin, stackLabels_concat]

theorem shiftLeft_or_one (label : Nat) : label <<< 4 ||| 1 = label <<< 4 + 1 := by
  rw [Nat.shiftLeft_eq, Nat.mul_comm]
  exact (Nat.two_pow_add_eq_or_of_lt (by decide) label).symm

theorem isBottom_shiftLeft (label : Nat) : isBottom (label <<< 4) ↔ label = 0x80000 := by
  rw [isBottom, Nat.shiftLeft_eq, withdrawLabel]
  simp
  omega

theorem isBottom_bottomLabel (label : Nat) : isBottom (bottomLabel label) := by
  unfold bottomLabel
  split
  · rw [shiftLeft_or_one, Nat.shiftLeft_eq, isBottom]
    simp
    omega
  · rename_i h
    simp only [ne_eq, Decidable.not_not] at h
    simp [h, isBottom]

theorem bottomLabel_shiftRight (label : Nat) : bottomLabel label >>> 4 = label := by
  unfold bottomLabel
  split
  · rw [shiftLeft_or_one, Nat.shiftRight_eq_div_pow, Nat.shiftLeft_eq]
    omega
  · omega

variable {label : Nat}

theorem bottomLabel_lt (h : label < 0x100000) : bottomLabel label < 256 ^ 3 := by
  unfold bottomLabel
  split
  · rw [shiftLeft_or_one, Nat.shiftLeft_eq]
    omega
  · omega

variable {rest : Bytes}

theorem labelsFromBin_push (hlt : label < 256 ^ 3) (hpush : ¬isBottom label) :
    labelsFromBin (n + 1) (beEncode 3 label ++ rest) =
      match labelsFromBin n rest with
      | .error e => .error e
      | .ok (labels, rest) => .ok (label :: labels, rest) := by
  cases hrest : labelsFromBin n rest <;>
    rw [labelsFromBin, uint_beEncode hlt, if_neg (by simp), if_neg hpush,
      drop_left' (length_beEncode 3 label), hrest]

theorem labelsFromBin_bottom {rest : Bytes} (hlt : label < 256 ^ 3) (hbottom : isBottom label) :
    labelsFromBin (n + 1) (beEncode 3 label ++ rest) = .ok ([label], rest) := by
  rw [labelsFromBin, uint_beEncode hlt, if_neg (by simp), if_pos hbottom,
    drop_left' (length_beEncode 3 label)]

variable {labels : List Nat} {bin : Bytes}

/-- Labels none of which is the bottom of the stack are passed over. -/
theorem labelsFromBin_pushes (hlt : ∀ l ∈ labels, l < 256 ^ 3) (hpush : ∀ l ∈ labels, ¬isBottom l)
    {rest : Bytes} {tail : List Nat} (h : labelsFromBin n bin = .ok (tail, rest)) :
    labelsFromBin (labels.length + n) ((labels.map (beEncode 3)).flatten ++ bin) =
      .ok (labels ++ tail, rest) := by
  induction labels with
  | nil => simpa using h
  | cons label labels ih =>
    have hrest := ih (fun l hl => hlt l (mem_cons_of_mem _ hl))
      fun l hl => hpush l (mem_cons_of_mem _ hl)
    rw [map_cons, flatten_cons, append_assoc, length_cons, Nat.add_right_comm,
      labelsFromBin_push (hlt _ (mem_cons_self ..)) (hpush _ (mem_cons_self ..)), hrest]
    rfl

/-- A stack ends with the first label that looks like the bottom. -/
theorem fromBin_stack {bottom : Nat} {rest : Bytes}
    (hlt : ∀ l ∈ labels, l < 0x100000) (hpush : 0x80000 ∉ labels) (hbottomlt : bottom < 256 ^ 3)
    (hbottom : isBottom bottom) (hrest : rest ≠ []) :
    fromBin (((labels.map (· <<< 4)).map (beEncode 3)).flatten ++ (beEncode 3 bottom ++ rest)) =
      .ok (labels ++ [bottom >>> 4], rest) := by
  set bin := ((labels.map (· <<< 4)).map (beEncode 3)).flatten ++ (beEncode 3 bottom ++ rest)
    with hbin
  have hlen : bin.length = labels.length + (2 * labels.length + 2 + rest.length + 1) := by
    have hflat : ((labels.map (· <<< 4)).map (beEncode 3)).flatten.length = 3 * labels.length := by
      simp [length_flatten, Function.comp_def, Nat.mul_comm]
    rw [hbin, length_append, length_append, hflat, length_beEncode]
    omega
  have hlabels : labelsFromBin bin.length bin =
      .ok (labels.map (· <<< 4) ++ [bottom], rest) := by
    have hmem : ∀ l ∈ labels.map (· <<< 4), l < 256 ^ 3 ∧ ¬isBottom l := by
      intro l hl
      obtain ⟨label, hlabel, rfl⟩ := mem_map.1 hl
      have hlabellt := hlt label hlabel
      rw [isBottom_shiftLeft]
      refine ⟨by omega, ?_⟩
      rintro rfl
      exact hpush hlabel
    have h := labelsFromBin_pushes (fun l hl => (hmem l hl).1) (fun l hl => (hmem l hl).2)
      (@labelsFromBin_bottom (2 * labels.length + 2 + rest.length) bottom rest hbottomlt hbottom)
    rwa [length_map, ← hlen, ← hbin] at h
  have hpos := length_pos_iff.2 hrest
  have hno : hasNoLabel bin = false := by
    simp only [hasNoLabel, hlabels, length_append, length_map, length_singleton,
      Bool.not_eq_false', decide_eq_true_eq]
    omega
  simp [fromBin, hno, hlabels, Function.comp_def, Nat.shiftRight_eq_div_pow, Nat.shiftLeft_eq]

/-- A label in the middle of the stack that looks like the bottom cuts the stack short. -/
theorem fromBin_labelsToBin_iff (hlt : ∀ l ∈ labels, l < 0x100000)
    (hne : labels ≠ []) (hrest : rest ≠ []) :
    ∃ labels' rest', fromBin (labelsToBin labels ++ rest) = .ok (labels', rest') ∧
      (labels' = labels ↔ 0x80000 ∉ labels.dropLast) ∧ (labels' = labels → rest' = rest) := by
  obtain ⟨init, last, rfl⟩ : ∃ init last, labels = init ++ [last] :=
    ⟨_, _, (dropLast_append_getLast hne).symm⟩
  have hinit : ∀ l ∈ init, l < 0x100000 := fun l hl => hlt l (mem_append_left _ hl)
  rw [labelsToBin_concat, append_assoc, dropLast_concat]
  by_cases hmem : 0x80000 ∈ init
  · obtain ⟨front, back, rfl, hfront⟩ := eq_append_cons_of_mem hmem
    have hstack := @fromBin_stack front withdrawLabel
      (((back.map (· <<< 4)).map (beEncode 3)).flatten ++ (beEncode 3 (bottomLabel last) ++ rest))
      (fun l hl => hinit l (mem_append_left _ hl)) hfront (by decide) (by decide)
      (by simp [hrest])
    have hcut : front ++ [withdrawLabel >>> 4] ≠ front ++ 0x80000 :: back ++ [last] := by simp
    rw [map_append, map_append, flatten_append, append_assoc]
    exact ⟨_, _, hstack, iff_of_false hcut (not_not_intro hmem), fun h => absurd h hcut⟩
  · refine ⟨_, _, fromBin_stack hinit hmem (bottomLabel_lt (hlt last (by simp)))
      (isBottom_bottomLabel last) hrest, ?_, fun _ => rfl⟩
    simp [bottomLabel_shiftRight, hmem]

theorem fromBin_of_hasNoLabel (h : hasNoLabel bin) : fromBin bin = .ok ([], bin) := by
  simp [fromBin, h]

theorem fromBin_of_not_hasNoLabel (h : ¬hasNoLabel bin) :
    ∃ labels rest, fromBin bin = .ok (labels, rest) ∧ labels ≠ [] := by
  cases hlabels : labelsFromBin bin.length bin with
  | error e => simp [hasNoLabel, hlabels] at h
  | ok r =>
    obtain ⟨labels, rest⟩ := r
    refine ⟨labels.map (· >>> 4), rest, by simp [fromBin, h, hlabels], ?_⟩
    rintro hnil
    unfold labelsFromBin at hlabels
    grind

/-! ## Prefixes -/

/-- The numbers of a route distinguisher fit their fields. -/
def RouteDistOk : RouteDistinguisher → Prop
  | .twoOctetAs admin assigned => admin < 0x10000 ∧ assigned < 0x100000000
  | .ipv4Address admin assigned => admin.length = 4 ∧ assigned < 0x10000
  | .fourOctetAs admin assigned => admin < 0x100000000 ∧ assigned < 0x10000

def routeDistBin : RouteDistinguisher → Bytes
  | .twoOctetAs admin assigned => beEncode 2 0 ++ (beEncode 2 admin ++ beEncode 4 assigned)
  | .ipv4Address admin assigned => beEncode 2 1 ++ (admin ++ beEncode 2 assigned)
  | .fourOctetAs admin assigned => beEncode 2 2 ++ (beEncode 4 admin ++ beEncode 2 assigned)

variable {routeDist : RouteDistinguisher}

section

variable (h : RouteDistOk routeDist)
include h

theorem length_routeDistBin : (routeDistBin routeDist).length = 8 := by
  cases routeDist <;> simp_all [RouteDistOk, routeDistBin]

theorem serializeRouteDist_eq_ok : serializeRouteDist routeDist = .ok (routeDistBin routeDist) := by
  cases routeDist <;>
    simp_all [RouteDistOk, serializeRouteDist, routeDistBin, pack, fits, encode, take_of_length_le]

theorem parseRouteDist_routeDistBin : parseRouteDist (routeDistBin routeDist) = .ok routeDist := by
  rw [parseRouteDist, pyAssert_pos (length_routeDistBin h)]
  cases routeDist with
  | twoOctetAs admin assigned =>
    simp [routeDistBin, uint_beEncode, uint_append_of_le, uint_beEncode (n := 2) h.1,
      uint_beEncode_self (n := 4) h.2]
  | ipv4Address admin assigned =>
    simp [routeDistBin, uint_beEncode, uint_append_of_le, slice_append_of_le, slice_append_left h.1,
      h.1, uint_beEncode_self (n := 2) h.2]
  | fourOctetAs admin assigned =>
    simp [routeDistBin, uint_beEncode, uint_append_of_le, uint_beEncode (n := 4) h.1,
      uint_beEncode_self (n := 2) h.2]

theorem vpnPrefixFromBin_append : vpnPrefixFromBin size (routeDistBin routeDist ++ bin) =
      (pad bin size).map fun addr => (routeDist, addr) := by
  have hlen := length_routeDistBin h
  rw [vpnPrefixFromBin, take_left' hlen, drop_left' hlen, parseRouteDist_routeDistBin h]
  rfl

end

/-- A VPN prefix whose parts fit their fields. The last two bounds are assertions of the class. -/
structure VpnFits (size length : Nat) (labels : List Nat) (routeDist : RouteDistinguisher)
    (addr : Bytes) : Prop where
  addr_length : addr.length = size
  labels_lt : ∀ l ∈ labels, l < 0x100000
  routeDist_ok : RouteDistOk routeDist
  le_length : 24 * labels.length + 64 ≤ length
  length_le : length ≤ 24 * labels.length + 64 + 8 * size
  length_gt : 64 < length

/-- The bits of the address behind the labels and the distinguisher. -/
def vpnBits (length : Nat) (labels : List Nat) : Nat := length - (24 * labels.length + 64)

/-- It can be seen where the labels end: if there are none, then what follows does not look like a
label, and the label that stands for a withdrawal is not in the middle. -/
def LabelsReadable (labels : List Nat) (rest : Bytes) : Prop :=
  (labels = [] → hasNoLabel rest) ∧ 0x80000 ∉ labels.dropLast

/-- The bytes of a VPN prefix. -/
def vpnBin (length : Nat) (labels : List Nat) (routeDist : RouteDistinguisher) (addr : Bytes) :
    Bytes :=
  labelsToBin labels ++ (routeDistBin routeDist ++ clip (vpnBits length labels) addr)

theorem fromBin_vpn_iff (hlt : ∀ l ∈ labels, l < 0x100000) (hrest : rest ≠ []) :
    ∃ labels' rest', fromBin (labelsToBin labels ++ rest) = .ok (labels', rest') ∧
      (labels' = labels ↔ LabelsReadable labels rest) ∧ (labels' = labels → rest' = rest) := by
  rcases eq_or_ne labels [] with rfl | hne
  · by_cases hno : hasNoLabel rest
    · exact ⟨_, _, fromBin_of_hasNoLabel hno, by simp [LabelsReadable, hno], fun _ => rfl⟩
    · obtain ⟨labels, rest', hbin, hlabels⟩ := fromBin_of_not_hasNoLabel hno
      exact ⟨_, _, hbin, by simp [LabelsReadable, hno, hlabels], fun h => absurd h hlabels⟩
  · simpa [LabelsReadable, hne] using fromBin_labelsToBin_iff hlt hne hrest

variable {length : Nat}

theorem vpnFromBin_parts {addr : Bytes}
    (h : vpnFromBin size length bin = .ok (labels, routeDist, addr)) :
    ∃ rest, fromBin bin = .ok (labels, rest) ∧
      vpnPrefixFromBin size rest = .ok (routeDist, addr) := by
  obtain ⟨⟨labels', rest⟩, hbin, h⟩ := bind_eq_ok.1 h
  obtain ⟨⟨routeDist', addr'⟩, hinit, h⟩ := bind_eq_ok.1 h
  obtain ⟨_, _, h⟩ := bind_eq_ok.1 h
  obtain ⟨_, _, h⟩ := bind_eq_ok.1 h
  cases h
  exact ⟨rest, hbin, hinit⟩

section Vpn

variable {size length : Nat} {labels : List Nat} {routeDist : RouteDistinguisher} {addr : Bytes}

section

variable (h : VpnFits size length labels routeDist addr)
include h

theorem VpnFits.bits_le : vpnBits length labels ≤ 8 * addr.length := by
  have hle := h.length_le
  rw [vpnBits, h.addr_length]
  omega

theorem VpnFits.rest_ne_nil (bin : Bytes) : routeDistBin routeDist ++ bin ≠ [] := by
  intro hnil
  have hlen := congrArg List.length hnil
  rw [length_append, length_routeDistBin h.routeDist_ok, length_nil] at hlen
  omega

theorem VpnFits.vpnPrefixFromBin_iff :
    vpnPrefixFromBin size (routeDistBin routeDist ++ clip (vpnBits length labels) addr) =
      .ok (routeDist, addr) ↔ NoHostBits (vpnBits length labels) addr := by
  rw [vpnPrefixFromBin_append h.routeDist_ok, ← pad_clip_iff h.bits_le, h.addr_length]
  cases pad (clip (vpnBits length labels) addr) size <;> simp [Except.map]

/-- A VPN prefix comes back if it has no bits behind it and its labels can be read. -/
theorem VpnFits.vpnFromBin_iff :
    vpnFromBin size length (vpnBin length labels routeDist addr) = .ok (labels, routeDist, addr) ↔
      NoHostBits (vpnBits length labels) addr ∧
        LabelsReadable labels (routeDistBin routeDist ++ clip (vpnBits length labels) addr) := by
  obtain ⟨labels', rest', hbin, hlabels, hrest⟩ :=
    fromBin_vpn_iff h.labels_lt (h.rest_ne_nil (clip (vpnBits length labels) addr))
  have hle := h.le_length
  rw [vpnBin, ← hlabels, ← h.vpnPrefixFromBin_iff]
  constructor
  · intro hok
    obtain ⟨rest, hbin', hinit⟩ := vpnFromBin_parts hok
    cases hbin.symm.trans hbin'
    rw [hrest rfl] at hinit
    exact ⟨hinit, rfl⟩
  · rintro ⟨hinit, rfl⟩
    rw [vpnFromBin, hbin, hrest rfl]
    simp [hinit, h.length_gt, show 24 * labels'.length < length by omega]

end

theorem length_labelsToBin (labels : List Nat) :
    (labelsToBin labels).length = 3 * labels.length := by
  rcases eq_nil_or_concat labels with rfl | ⟨init, last, rfl⟩
  · rfl
  · rw [concat_eq_append, labelsToBin_concat]
    simp [length_flatten, Function.comp_def]
    omega

theorem VpnFits.length_vpnBin (h : VpnFits size length labels routeDist addr) :
    (vpnBin length labels routeDist addr).length = (length + 7) / 8 := by
  have hle := h.le_length
  rw [vpnBin, length_append, length_append, length_labelsToBin,
    length_routeDistBin h.routeDist_ok, length_clip h.bits_le, vpnBits]
  omega

theorem VpnFits.cutBin (h : VpnFits size length labels routeDist addr) :
    cutBin length (labelsToBin labels ++ routeDistBin routeDist ++ addr) =
      .ok (vpnBin length labels routeDist addr) := by
  have hle := h.le_length
  have hlength : length =
      8 * (labelsToBin labels ++ routeDistBin routeDist).length + vpnBits length labels := by
    rw [length_append, length_labelsToBin, length_routeDistBin h.routeDist_ok, vpnBits]
    omega
  have hcut := @cutBin_append _ (labelsToBin labels ++ routeDistBin routeDist) addr h.bits_le
  rwa [← hlength, append_assoc (labelsToBin labels) (routeDistBin routeDist) (clip ..)] at hcut

end Vpn

/-- The parts of a prefix of the given class fit their fields. -/
def NlriFits : AddrClass → Nlri → Prop
  | .ip, .ip length addr => addr.length = 4 ∧ length ≤ 32
  | .ip6, .ip6 length addr => addr.length = 16 ∧ length ≤ 128
  | .vpnIp, .vpnIp length labels routeDist addr =>
    VpnFits 4 length labels routeDist addr ∧ length < 256
  | .vpnIp6, .vpnIp6 length labels routeDist addr =>
    VpnFits 16 length labels routeDist addr ∧ length < 256
  | _, _ => False

/-- Nothing is lost of the prefix. -/
def NlriRecoverable : Nlri → Prop
  | .ip length addr | .ip6 length addr => NoHostBits length addr
  | .vpnIp length labels routeDist addr | .vpnIp6 length labels routeDist addr =>
    NoHostBits (vpnBits length labels) addr ∧ LabelsReadable labels
      (routeDistBin routeDist ++ addr.take ((vpnBits length labels + 7) / 8))
  | _ => True

/-- The bytes behind the length. -/
def addrBin : Nlri → Bytes
  | .ip length addr | .ip6 length addr => clip length addr
  | .vpnIp length labels routeDist addr | .vpnIp6 length labels routeDist addr =>
    vpnBin length labels routeDist addr
  | _ => []

def nlriBin (nlri : Nlri) : Bytes := beEncode 1 (lengthOf nlri) ++ addrBin nlri

theorem VpnFits.recoverable_iff {addr : Bytes} (h : VpnFits size length labels routeDist addr) :
    (NoHostBits (vpnBits length labels) addr ∧ LabelsReadable labels
      (routeDistBin routeDist ++ addr.take ((vpnBits length labels + 7) / 8))) ↔
      vpnFromBin size length (vpnBin length labels routeDist addr) =
        .ok (labels, routeDist, addr) := by
  rw [h.vpnFromBin_iff]
  refine and_congr_right fun hbits => ?_
  rw [clip_eq_take h.bits_le hbits]

variable {cls : AddrClass} {nlri : Nlri}

section

variable (h : NlriFits cls nlri)
include h

theorem NlriFits.length_lt : lengthOf nlri < 256 := by
  cases cls <;> cases nlri <;> simp only [NlriFits, lengthOf] at h ⊢ <;> omega

theorem NlriFits.length_addrBin : (addrBin nlri).length = (lengthOf nlri + 7) / 8 := by
  cases cls <;> cases nlri <;> simp only [NlriFits] at h
  · exact length_clip (by omega)
  · exact length_clip (by omega)
  · exact h.1.length_vpnBin
  · exact h.1.length_vpnBin

theorem NlriFits.makeNlri_iff :
    makeNlri (lengthOf nlri) (addrBin nlri) cls = .ok nlri ↔ NlriRecoverable nlri := by
  cases cls <;> cases nlri <;> simp only [NlriFits] at h
  · refine (bind_pure_iff (f := Nlri.ip _) fun _ _ h => (Nlri.ip.inj h).2).trans ?_
    rw [← h.1]
    exact pad_clip_iff (by omega)
  · refine (bind_pure_iff (f := Nlri.ip6 _) fun _ _ h => (Nlri.ip6.inj h).2).trans ?_
    rw [← h.1]
    exact pad_clip_iff (by omega)
  · refine (bind_pure_iff (f := fun p => Nlri.vpnIp _ p.1 p.2.1 p.2.2) ?_).trans
      h.1.recoverable_iff.symm
    rintro ⟨_, _, _⟩ ⟨_, _, _⟩ heq
    simpa using heq
  · refine (bind_pure_iff (f := fun p => Nlri.vpnIp6 _ p.1 p.2.1 p.2.2) ?_).trans
      h.1.recoverable_iff.symm
    rintro ⟨_, _, _⟩ ⟨_, _, _⟩ heq
    simpa using heq

theorem NlriFits.cutBin :
    ∃ bin, toBin nlri = .ok bin ∧ cutBin (lengthOf nlri) bin = .ok (addrBin nlri) := by
  cases cls <;> cases nlri <;> simp only [NlriFits] at h
  · exact ⟨_, rfl, cutBin_eq_ok (by simp only [lengthOf]; omega)⟩
  · exact ⟨_, rfl, cutBin_eq_ok (by simp only [lengthOf]; omega)⟩
  all_goals exact ⟨_, by rw [toBin, serializeRouteDist_eq_ok h.1.routeDist_ok]; rfl, h.1.cutBin⟩

/-- What is written does not depend on the fixup, but the fixup may raise. -/
theorem NlriFits.serializeNlri_eq : serializeNlri nlri =
      (setAddr (addrBin nlri) nlri).map fun fixed => (nlriBin nlri, fixed) := by
  obtain ⟨bin, htoBin, hcut⟩ := h.cutBin
  have hpack : pack [B] [.int (lengthOf nlri)] = .ok (beEncode 1 (lengthOf nlri)) := by
    simp [pack, fits, encode, h.length_lt]
  simp only [serializeNlri, htoBin, hcut, hpack, ok_bind]
  cases setAddr (addrBin nlri) nlri <;> rfl

/-- Where the class can make the prefix again, the fixup changes nothing. -/
theorem NlriFits.setAddr_eq_ok
    (hok : makeNlri (lengthOf nlri) bin cls = .ok nlri) : setAddr bin nlri = .ok nlri := by
  cases cls <;> cases nlri <;> simp only [NlriFits] at h
  · exact hok
  · exact hok
  all_goals
    obtain ⟨⟨labels, routeDist, addr⟩, hvpn, hok⟩ := bind_eq_ok.1 hok
    cases hok
    obtain ⟨rest, hbin, hinit⟩ := vpnFromBin_parts hvpn
    simp [setAddr, hbin, hinit]

theorem NlriFits.takesFrame :
    TakesFrame (parseNlri cls) (nlriBin nlri) (makeNlri (lengthOf nlri) (addrBin nlri) cls) := by
  have hlen := h.length_addrBin
  have hfirst : firstSize cls = 1 := by
    cases cls <;> cases nlri <;> simp_all [NlriFits, firstSize]
  refine ⟨by simp [nlriBin, beEncode], fun rest => ?_⟩
  rw [parseNlri, nlriBin, append_assoc, hfirst, if_neg (by simp),
    uint_beEncode (n := 1) h.length_lt, drop_left' (length_beEncode 1 _)]
  dsimp only
  rw [take_left' hlen, drop_left' hlen]
  cases makeNlri (lengthOf nlri) (addrBin nlri) cls <;> rfl

end

end BebaCtrl.Bgp.Wire
