import BebaCtrl.Bgp.PrefixRoundTrip

/-!
# Prefixes, constructed, serialized and parsed

The constructors of the prefix classes take the length of the IP prefix and add the bits of the
labels and of the route distinguisher. The length on the wire is that of all of them. The
constructor of the labelled classes asserts that something follows the labels, before the route
distinguisher is counted.

A route distinguisher is given as an object or as a text with two parts.
-/

namespace BebaCtrl.Bgp.Wire

open Struct List

/-! ## Constructors -/

/-- The two parts of the text of a route distinguisher. -/
inductive RouteDistText where
  | addr (first : Bytes) (second : Nat)
  | number (first second : Nat)
  deriving DecidableEq, Repr

/-- `_RouteDistinguisher.from_str` -/
def fromStr : RouteDistText → RouteDistinguisher
  | .addr first second => .ipv4Address first second
  | .number first second =>
    if first > 1 <<< 16 then .fourOctetAs first second else .twoOctetAs first second

inductive RouteDistArg where
  | object (routeDist : RouteDistinguisher)
  | text (parts : RouteDistText)
  deriving DecidableEq, Repr

def RouteDistArg.make : RouteDistArg → RouteDistinguisher
  | .object routeDist => routeDist
  | .text parts => fromStr parts

/-- What stands in front of the address. -/
inductive PrefixKind where
  | plain
  | labelled (labels : List Nat)
  | vpn (labels : List Nat) (routeDist : RouteDistArg)
  deriving DecidableEq, Repr

/-- The arguments of a constructor. -/
structure PrefixArgs where
  isV6 : Bool
  kind : PrefixKind
  length : Nat
  addr : Bytes
  deriving DecidableEq, Repr

/-- `_LabelledAddrPrefix.__init__` without a tuple; the length that it gives on. -/
def labelledInit (length : Nat) (labels : List Nat) : PyResult Nat := do
  let length := length + 24 * labels.length
  pyAssert (length > 24 * labels.length)
  return length

/-- `_VPNAddrPrefix.__init__` without a tuple. -/
def vpnInit (length : Nat) : Nat := length + 64

namespace PrefixArgs

variable (a : PrefixArgs)

def construct : PyResult Nlri :=
  match a.isV6, a.kind with
  | false, .plain => return .ip a.length a.addr
  | true, .plain => return .ip6 a.length a.addr
  | false, .labelled labels => return .labelledIp (← labelledInit a.length labels) labels a.addr
  | true, .labelled labels => return .labelledIp6 (← labelledInit a.length labels) labels a.addr
  | false, .vpn labels routeDist =>
    return .vpnIp (vpnInit (← labelledInit a.length labels)) labels routeDist.make a.addr
  | true, .vpn labels routeDist =>
    return .vpnIp6 (vpnInit (← labelledInit a.length labels)) labels routeDist.make a.addr

def cls : AddrClass :=
  match a.isV6, a.kind with
  | false, .plain => .ip
  | true, .plain => .ip6
  | false, .labelled _ => .labelledIp
  | true, .labelled _ => .labelledIp6
  | false, .vpn _ _ => .vpnIp
  | true, .vpn _ _ => .vpnIp6

/-- The octets of an address. -/
def size : Nat := if a.isV6 then 16 else 4

end PrefixArgs

/-! ## Masked addresses -/

variable {bits : Nat} {addr : Bytes}

theorem pad_clip (h : bits ≤ 8 * addr.length) :
    pad (clip bits addr) addr.length = .ok (maskAddr bits addr) := by
  have hlen := length_clip h
  rw [pad_eq_ok (by omega), hlen]
  rfl

/-! ## Round trips -/

/-- Labels that can be told apart on the wire. -/
def LabelsOk (labels : List Nat) : Prop :=
  labels ≠ [] ∧ (∀ l ∈ labels, l < 0x100000) ∧ 0x80000 ∉ labels.dropLast

instance (labels : List Nat) : Decidable (LabelsOk labels) :=
  inferInstanceAs (Decidable (_ ∧ _ ∧ _))

instance : ∀ routeDist : RouteDistinguisher, Decidable (RouteDistOk routeDist)
  | .twoOctetAs _ _ => inferInstanceAs (Decidable (_ ∧ _))
  | .ipv4Address _ _ => inferInstanceAs (Decidable (_ ∧ _))
  | .fourOctetAs _ _ => inferInstanceAs (Decidable (_ ∧ _))

/-- A route distinguisher of one of the three types. A number of four octets goes with one of two.
-/
def RouteDistArg.Ok : RouteDistArg → Prop
  | .object routeDist => RouteDistOk routeDist
  | .text (.addr first second) => first.length = 4 ∧ second < 0x10000
  | .text (.number first second) =>
    first < 0x10000 ∧ second < 0x100000000 ∨ first < 0x100000000 ∧ second < 0x10000

instance : ∀ routeDist : RouteDistArg, Decidable routeDist.Ok
  | .object routeDist => inferInstanceAs (Decidable (RouteDistOk routeDist))
  | .text (.addr _ _) => inferInstanceAs (Decidable (_ ∧ _))
  | .text (.number _ _) => inferInstanceAs (Decidable (_ ∧ _ ∨ _ ∧ _))

namespace PrefixKind

/-- The bits in front of the address. -/
def overhead : PrefixKind → Nat
  | .plain => 0
  | .labelled labels => 24 * labels.length
  | .vpn labels _ => 24 * labels.length + 64

def Ok : PrefixKind → Prop
  | .plain => True
  | .labelled labels => LabelsOk labels
  | .vpn labels routeDist => LabelsOk labels ∧ routeDist.Ok

instance : ∀ kind : PrefixKind, Decidable kind.Ok
  | .plain => inferInstanceAs (Decidable True)
  | .labelled labels => inferInstanceAs (Decidable (LabelsOk labels))
  | .vpn _ _ => inferInstanceAs (Decidable (_ ∧ _))

/-- The bytes in front of the address. -/
def front : PrefixKind → Bytes
  | .plain => []
  | .labelled labels => labelsToBin labels
  | .vpn labels routeDist => labelsToBin labels ++ routeDistBin routeDist.make

end PrefixKind

/-- An address of the same family whose number has the bits behind the prefix cleared. -/
def Masked (bits : Nat) (addr masked : Bytes) : Prop :=
  masked.length = addr.length ∧
    beDecode masked =
      beDecode addr / 2 ^ (8 * addr.length - bits) * 2 ^ (8 * addr.length - bits)

/-- The same prefix with another address. -/
def withAddr (addr : Bytes) : Nlri → Nlri
  | .ip length _ => .ip length addr
  | .ip6 length _ => .ip6 length addr
  | .labelledIp length labels _ => .labelledIp length labels addr
  | .labelledIp6 length labels _ => .labelledIp6 length labels addr
  | .vpnIp length labels routeDist _ => .vpnIp length labels routeDist addr
  | .vpnIp6 length labels routeDist _ => .vpnIp6 length labels routeDist addr
  | nlri => nlri

namespace PrefixArgs

/-- An address of its family, a prefix length of the address, and a total length that fits an octet.
-/
structure Ok (a : PrefixArgs) : Prop where
  kind : a.kind.Ok
  addr_length : a.addr.length = a.size
  length_le : a.length ≤ 8 * a.size
  total_le : a.kind.overhead + a.length ≤ 255

instance (a : PrefixArgs) : Decidable a.Ok :=
  decidable_of_iff (a.kind.Ok ∧ a.addr.length = a.size ∧ a.length ≤ 8 * a.size ∧
      a.kind.overhead + a.length ≤ 255)
    ⟨fun ⟨h₁, h₂, h₃, h₄⟩ => ⟨h₁, h₂, h₃, h₄⟩, fun ⟨h₁, h₂, h₃, h₄⟩ => ⟨h₁, h₂, h₃, h₄⟩⟩

/-- The prefix can be constructed, and comes back with the bits behind it cleared. -/
def RoundTrips (a : PrefixArgs) : Prop :=
  ∃ nlri buf fixed masked, a.construct = .ok nlri ∧ serializeNlri nlri = .ok (buf, fixed) ∧
    Masked a.length a.addr masked ∧
    ∀ rest, parseNlri a.cls (buf ++ rest) = .ok (withAddr masked nlri, rest)

/-- The prefix that the constructor makes if it does not raise. -/
def nlri (a : PrefixArgs) : Nlri :=
  let length := a.kind.overhead + a.length
  match a.isV6, a.kind with
  | false, .plain => .ip length a.addr
  | true, .plain => .ip6 length a.addr
  | false, .labelled labels => .labelledIp length labels a.addr
  | true, .labelled labels => .labelledIp6 length labels a.addr
  | false, .vpn labels routeDist => .vpnIp length labels routeDist.make a.addr
  | true, .vpn labels routeDist => .vpnIp6 length labels routeDist.make a.addr

variable {a : PrefixArgs}

theorem labelledInit_eq (length : Nat) (labels : List Nat) :
    labelledInit length labels =
      if 1 ≤ length then .ok (24 * labels.length + length) else .error .assertionError := by
  unfold labelledInit
  dsimp only
  by_cases h : 1 ≤ length
  · rw [pyAssert_pos (by omega), if_pos h, Nat.add_comm length]
    rfl
  · rw [pyAssert_neg (by omega), if_neg h]
    rfl

/-- The assertion of the labelled classes is on the length of the IP prefix. -/
theorem construct_eq (a : PrefixArgs) :
    a.construct =
      if a.kind = .plain ∨ 1 ≤ a.length then .ok a.nlri else .error .assertionError := by
  obtain ⟨isV6, kind, length, addr⟩ := a
  cases kind with
  | plain => cases isV6 <;> simp [construct, nlri, PrefixKind.overhead]
  | labelled labels =>
    by_cases h : 1 ≤ length <;> cases isV6 <;>
      simp [construct, nlri, PrefixKind.overhead, labelledInit_eq, h]
  | vpn labels routeDist =>
    have hlength : 24 * labels.length + length + 64 = 24 * labels.length + 64 + length := by omega
    by_cases h : 1 ≤ length <;> cases isV6 <;>
      simp [construct, nlri, PrefixKind.overhead, labelledInit_eq, vpnInit, hlength, h]

theorem lengthOf_nlri (a : PrefixArgs) : lengthOf a.nlri = a.kind.overhead + a.length := by
  obtain ⟨isV6, kind, length, addr⟩ := a
  cases isV6 <;> cases kind <;> rfl

end PrefixArgs

theorem LabelsOk.fromBin {labels : List Nat} (h : LabelsOk labels) {rest : Bytes}
    (hrest : rest ≠ []) : fromBin (labelsToBin labels ++ rest) = .ok (labels, rest) := by
  obtain ⟨labels', rest', hbin, hlabels, hrest'⟩ := fromBin_labelsToBin_iff h.2.1 h.1 hrest
  obtain rfl := hlabels.2 h.2.2
  rw [hbin, hrest' rfl]

/-- The texts that are taken for a number of two octets although it has more. -/
theorem RouteDistArg.Ok.make_ok_iff {routeDist : RouteDistArg} (h : routeDist.Ok) :
    RouteDistOk routeDist.make ↔ ∀ second, routeDist ≠ .text (.number 0x10000 second) := by
  rcases routeDist with routeDist | ⟨first, second⟩ | ⟨first, second⟩
  · exact iff_of_true h (by simp)
  · exact iff_of_true h (by simp)
  · simp only [Ok] at h
    simp only [make, fromStr, RouteDistArg.text.injEq, RouteDistText.number.injEq, ne_eq, not_and]
    split
    · exact iff_of_true (by simp only [RouteDistOk]; omega) (by omega)
    · simp only [RouteDistOk]
      constructor
      · omega
      · intro hne
        have := hne second
        omega

/-- The number 65536 does not fit two octets. -/
theorem serializeRouteDist_error (second : Nat) :
    serializeRouteDist (fromStr (.number 0x10000 second)) = .error .structError := by
  simp [fromStr, serializeRouteDist, pack, fits]

namespace PrefixKind

/-- The numbers of the route distinguisher can be packed. -/
def Packable : PrefixKind → Prop
  | .vpn _ routeDist => RouteDistOk routeDist.make
  | _ => True

theorem length_front {kind : PrefixKind}
    (h : kind.Packable) : 8 * kind.front.length = kind.overhead := by
  cases kind with
  | plain => rfl
  | labelled labels =>
    rw [front, length_labelsToBin, overhead]
    omega
  | vpn labels routeDist =>
    rw [front, length_append, length_labelsToBin, length_routeDistBin h, overhead]
    omega

end PrefixKind

namespace PrefixArgs

variable {a : PrefixArgs}

theorem toBin_nlri (h : a.kind.Packable) : toBin a.nlri = .ok (a.kind.front ++ a.addr) := by
  obtain ⟨isV6, kind, length, addr⟩ := a
  cases kind with
  | plain => cases isV6 <;> rfl
  | labelled labels => cases isV6 <;> rfl
  | vpn labels routeDist =>
    cases isV6 <;>
      simp [nlri, toBin, serializeRouteDist_eq_ok (show RouteDistOk routeDist.make from h),
        PrefixKind.front]

theorem clip_ne_nil (hle : bits ≤ 8 * addr.length) (hpos : 1 ≤ bits) : clip bits addr ≠ [] := by
  intro hnil
  have hlen := length_clip hle
  rw [hnil, length_nil] at hlen
  omega

/-- What the class makes of the bytes, in the fixup and in the parser. -/
theorem setAddr_and_makeNlri (h : a.Ok) (hpack : a.kind.Packable)
    (hpos : a.kind = .plain ∨ 1 ≤ a.length) :
    setAddr (a.kind.front ++ clip a.length a.addr) a.nlri =
        .ok (withAddr (maskAddr a.length a.addr) a.nlri) ∧
      makeNlri (a.kind.overhead + a.length) (a.kind.front ++ clip a.length a.addr) a.cls =
        .ok (withAddr (maskAddr a.length a.addr) a.nlri) := by
  obtain ⟨hkind, haddr, hle, htotal⟩ := h
  rw [← haddr] at hle
  have hpad := pad_clip hle
  obtain ⟨isV6, kind, length, addr⟩ := a
  have hsize : addr.length = if isV6 then 16 else 4 := haddr
  cases kind with
  | plain =>
    simp only [PrefixKind.front, nil_append, PrefixKind.overhead, Nat.zero_add]
    cases isV6 <;>
      simp_all [setAddr, makeNlri, nlri, cls, withAddr, PrefixKind.overhead]
  | labelled labels =>
    have hlength : 1 ≤ length := hpos.resolve_left (by simp)
    have hbin := LabelsOk.fromBin hkind (clip_ne_nil hle hlength)
    have hassert : 24 * labels.length + length > 24 * labels.length := by omega
    cases isV6 <;>
      simp_all [setAddr, makeNlri, labelledFromBin, nlri, cls, withAddr, PrefixKind.overhead,
        PrefixKind.front]
  | vpn labels routeDist =>
    have hrd : RouteDistOk routeDist.make := hpack
    have hne : routeDistBin routeDist.make ++ clip length addr ≠ [] := by
      intro hnil
      have hlen := congrArg List.length hnil
      rw [length_append, length_routeDistBin hrd, length_nil] at hlen
      omega
    have hbin := LabelsOk.fromBin hkind.1 hne
    have hvpn := fun size => @vpnPrefixFromBin_append size (clip length addr) _ hrd
    have hassert : 24 * labels.length + 64 + length > 24 * labels.length := by omega
    have hassert' : 24 * labels.length + 64 + length > 64 := by
      have := length_pos_iff.2 hkind.1.1
      omega
    cases isV6 <;>
      simp_all [setAddr, makeNlri, vpnFromBin, nlri, cls, withAddr, PrefixKind.overhead,
        PrefixKind.front, Except.map]

theorem roundTrips_of_pos (h : a.Ok) (hpack : a.kind.Packable)
    (hpos : a.kind = .plain ∨ 1 ≤ a.length) : a.RoundTrips := by
  obtain ⟨hset, hmake⟩ := setAddr_and_makeNlri h hpack hpos
  have hle : a.length ≤ 8 * a.addr.length := by
    rw [h.addr_length]
    exact h.length_le
  have hlength := a.lengthOf_nlri
  have hfront := PrefixKind.length_front hpack
  have htotal := h.total_le
  set bin := a.kind.front ++ clip a.length a.addr with hbin
  have hcut : cutBin (a.kind.overhead + a.length) (a.kind.front ++ a.addr) = .ok bin := by
    rw [← hfront]
    exact cutBin_append hle
  have hlen : bin.length = (a.kind.overhead + a.length + 7) / 8 := by
    rw [hbin, length_append, length_clip hle]
    omega
  have hser : serializeNlri a.nlri = .ok (beEncode 1 (a.kind.overhead + a.length) ++ bin,
      withAddr (maskAddr a.length a.addr) a.nlri) := by
    have hlt : a.kind.overhead + a.length < 256 := by omega
    simp [serializeNlri, toBin_nlri hpack, hcut, hset, hlength, pack, fits, encode, hlt]
  refine ⟨a.nlri, _, _, maskAddr a.length a.addr, by rw [construct_eq, if_pos hpos], hser,
    ⟨length_maskAddr hle, beDecode_maskAddr hle⟩, fun rest => ?_⟩
  have hfirst : firstSize a.cls = 1 := by
    obtain ⟨isV6, kind, length, addr⟩ := a
    cases isV6 <;> cases kind <;> rfl
  rw [parseNlri, hfirst, if_neg (by simp), append_assoc,
    uint_beEncode (n := 1) (by omega), drop_left' (length_beEncode 1 _)]
  dsimp only
  rw [take_left' hlen, drop_left' hlen, hmake]
  rfl

theorem packable_iff (h : a.Ok) :
    a.kind.Packable ↔ ∀ labels second, a.kind ≠ .vpn labels (.text (.number 0x10000 second)) := by
  cases hkind : a.kind with
  | plain => simp [PrefixKind.Packable]
  | labelled labels => simp [PrefixKind.Packable]
  | vpn labels routeDist =>
    have hok := h.kind
    rw [hkind] at hok
    rw [PrefixKind.Packable, hok.2.make_ok_iff]
    constructor
    · rintro hne _ second ⟨⟩
      exact hne second rfl
    · rintro hne second rfl
      exact hne labels second rfl

/-- A prefix comes back unless it is labelled and of length 0, or its route distinguisher is a text
with the number 65536 in front. -/
theorem roundTrips_iff_length (a : PrefixArgs) (h : a.Ok) :
    a.RoundTrips ↔ (a.kind = .plain ∨ 1 ≤ a.length) ∧
      ∀ labels second, a.kind ≠ .vpn labels (.text (.number 0x10000 second)) := by
  rw [← packable_iff h]
  constructor
  · rintro ⟨nlri, buf, fixed, masked, hmade, hser, -⟩
    rw [construct_eq] at hmade
    split at hmade
    · rename_i hpos
      cases hmade
      refine ⟨hpos, (packable_iff h).2 fun labels second hkind => ?_⟩
      obtain ⟨isV6, kind, length, addr⟩ := a
      cases hkind
      have herror := serializeRouteDist_error second
      cases isV6 <;>
        simp [serializeNlri, PrefixArgs.nlri, toBin, RouteDistArg.make, herror] at hser
    · cases hmade
  · rintro ⟨hpos, hpack⟩
    exact roundTrips_of_pos h hpack hpos

/-- Two labels, a route distinguisher with the number 65537 in front and 10.1.2.0/23. -/
theorem roundTrips_vpn_two_labels :
    PrefixArgs.RoundTrips
      ⟨false, .vpn [16, 17] (.text (.number 0x10001 7)), 23, [10, 1, 2, 0]⟩ :=
  (roundTrips_iff_length _ (by decide)).2 ⟨Or.inr (by decide), by simp⟩

/-- The default route cannot be constructed with a label, and a prefix with the route distinguisher
65536:1 cannot be serialized. -/
theorem not_roundTrips_default_route :
    let defaultRoute : PrefixArgs :=
      ⟨false, .vpn [16] (.object (.twoOctetAs 1 1)), 0, [0, 0, 0, 0]⟩
    let fourOctets : PrefixArgs := ⟨false, .vpn [16] (.text (.number 0x10000 1)), 8, [10, 0, 0, 0]⟩
    (defaultRoute.Ok ∧ defaultRoute.construct = .error .assertionError ∧
      ¬ defaultRoute.RoundTrips) ∧
      fourOctets.Ok ∧ fourOctets.construct.bind serializeNlri = .error .structError ∧
        ¬ fourOctets.RoundTrips := by
  intro defaultRoute fourOctets
  have hmade : defaultRoute.construct = .error .assertionError := rfl
  have hser : fourOctets.construct.bind serializeNlri = .error .structError := by decide
  refine ⟨⟨by decide, hmade, ?_⟩, by decide, hser, ?_⟩
  · rintro ⟨nlri, buf, fixed, masked, hnlri, -⟩
    cases hnlri
  · rintro ⟨nlri, buf, fixed, masked, hnlri, hbuf, -⟩
    rw [hnlri, Except.bind, hbuf] at hser
    cases hser

end PrefixArgs

end BebaCtrl.Bgp.Wire
