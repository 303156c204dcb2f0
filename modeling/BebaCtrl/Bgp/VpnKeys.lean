import BebaCtrl.Bgp.PrefixClasses
import BebaCtrl.Lib.Text

/-!
# Keys of the VPN tables

`VpnTable._table_key` joins the texts of the route distinguisher and of the IP prefix. The mask in
the second is what remains of the length on the wire when the route distinguisher and the labels are
taken off. The labels are counted as the items in front of the last two of the tuple `addr`, where
the list of labels is one item.

Addresses are texts in the source. Here they are octets, and their texts those that `addrconv`
gives.
-/

namespace BebaCtrl.Bgp

open Wire Text List

/-! ## Texts -/

/-- The octets of an address with some separator. -/
def octetsText (sep : Char) (addr : Bytes) : List Char :=
  join sep (addr.map fun b => decimal b.toNat)

/-- `addrconv.ipv4.bin_to_text` -/
def ipv4Text (addr : Bytes) : List Char := octetsText '.' addr

/-- `_RouteDistinguisher.formatted_str` -/
def RouteDistinguisher.formattedStr : RouteDistinguisher → List Char
  | .twoOctetAs admin assigned => decimal admin ++ ':' :: decimal assigned
  | .ipv4Address admin assigned => ipv4Text admin ++ ':' :: decimal assigned
  | .fourOctetAs admin assigned => decimal admin ++ ':' :: decimal assigned

/-- The items of the tuple `addr`. -/
inductive AddrItem where
  | labels (labels : List Nat)
  | routeDist (routeDist : RouteDistinguisher)
  | addr (addr : Bytes)

/-- The `masklen` of the two VPN classes. -/
def vpnMasklen (length : Nat) (addr : List AddrItem) : Int :=
  length - 8 * 8 - 3 * 8 * (addr.dropLast.dropLast.length : Int)

namespace Nlri

variable (ipv6Text : Bytes → List Char)

/-- The property `prefix`. -/
def prefixText : Nlri → PyResult (List Char)
  | .ip length addr => return ipv4Text addr ++ '/' :: decimal length
  | .ip6 length addr => return ipv6Text addr ++ '/' :: decimal length
  | .vpnIp length labels routeDist addr =>
    return ipv4Text addr ++ '/' ::
      intText (vpnMasklen length [.labels labels, .routeDist routeDist, .addr addr])
  | .vpnIp6 length labels routeDist addr =>
    return ipv6Text addr ++ '/' ::
      intText (vpnMasklen length [.labels labels, .routeDist routeDist, .addr addr])
  | _ => throw .attributeError

/-- The property `route_dist`. -/
def routeDistText : Nlri → PyResult (List Char)
  | .vpnIp _ _ routeDist _ => return routeDist.formattedStr
  | .vpnIp6 _ _ routeDist _ => return routeDist.formattedStr
  | _ => throw .attributeError

end Nlri

/-- `VpnTable._table_key` -/
def vpnTableKey (ipv6Text : Bytes → List Char) (vpnNlri : Nlri) : PyResult (List Char) := do
  let routeDist ← vpnNlri.routeDistText
  let addrMask ← vpnNlri.prefixText ipv6Text
  return routeDist ++ ':' :: addrMask

def RouteTarget.text : RouteTarget → List Char
  | .ofAs asNumber loc => decimal asNumber ++ ':' :: decimal loc
  | .ofAddr addr loc => ipv4Text addr ++ ':' :: decimal loc

/-- The property `formatted_nlri_str`, which only the supported families have. -/
def Nlri.formattedNlriStr (ipv6Text : Bytes → List Char) (nlri : Nlri) : PyResult (List Char) :=
  match nlri with
  | .ip _ _ | .ip6 _ _ => nlri.prefixText ipv6Text
  | .vpnIp _ _ _ _ | .vpnIp6 _ _ _ _ => vpnTableKey ipv6Text nlri
  | .rtc originAs routeTarget => return decimal originAs ++ ':' :: routeTarget.text
  | _ => throw .attributeError

/-! ## Reading the texts back -/

theorem octetsText_inj {sep : Char} (hsep : sep.isDigit = false) :
    Function.Injective (octetsText sep) := by
  intro addr addr' h
  have hparts : ∀ bs : Bytes, ∀ part ∈ bs.map fun b => decimal b.toNat, part ≠ [] ∧ sep ∉ part := by
    intro bs part hpart
    obtain ⟨b, -, rfl⟩ := mem_map.1 hpart
    exact ⟨Nat.toDigits_ne_nil, notMem_decimal hsep b.toNat⟩
  have hmap := join_inj (hparts addr) (hparts addr') h
  refine map_injective_iff.2 (fun b b' hb => ?_) hmap
  exact UInt8.toNat_inj.1 (decimal_inj.1 hb)

theorem notMem_octetsText {c sep : Char} (hc : c.isDigit = false) (hne : c ≠ sep) (addr : Bytes) :
    c ∉ octetsText sep addr := by
  refine notMem_join hne fun part hpart => ?_
  obtain ⟨b, -, rfl⟩ := mem_map.1 hpart
  exact notMem_decimal hc b.toNat

theorem mem_octetsText {sep : Char} {addr : Bytes} (h : 2 ≤ addr.length) :
    sep ∈ octetsText sep addr :=
  mem_join (by simpa using h)

/-- What is used of the texts of IPv6 addresses. -/
structure Ipv6Texts (ipv6Text : Bytes → List Char) : Prop where
  inj : ∀ {addr addr' : Bytes}, addr.length = 16 → addr'.length = 16 →
    ipv6Text addr = ipv6Text addr' → addr = addr'
  colon_mem : ∀ {addr : Bytes}, addr.length = 16 → ':' ∈ ipv6Text addr

namespace RouteDistinguisher

/-- The text in front of the colon. -/
def adminText : RouteDistinguisher → List Char
  | .twoOctetAs admin _ => decimal admin
  | .ipv4Address admin _ => ipv4Text admin
  | .fourOctetAs admin _ => decimal admin

def assigned : RouteDistinguisher → Nat
  | .twoOctetAs _ assigned => assigned
  | .ipv4Address _ assigned => assigned
  | .fourOctetAs _ assigned => assigned

/-- Two route distinguishers of different types with the same numbers. -/
def Twins : RouteDistinguisher → RouteDistinguisher → Prop
  | .twoOctetAs admin assigned, .fourOctetAs admin' assigned' =>
      admin = admin' ∧ assigned = assigned'
  | .fourOctetAs admin assigned, .twoOctetAs admin' assigned' =>
      admin = admin' ∧ assigned = assigned'
  | _, _ => False

variable {routeDist routeDist' : RouteDistinguisher}

section

variable (routeDist : RouteDistinguisher)

theorem formattedStr_eq :
    routeDist.formattedStr = routeDist.adminText ++ ':' :: decimal routeDist.assigned := by
  cases routeDist <;> rfl

theorem colon_notMem_adminText : ':' ∉ routeDist.adminText := by
  cases routeDist with
  | twoOctetAs admin _ => exact notMem_decimal (by decide) admin
  | ipv4Address admin _ => exact notMem_octetsText (by decide) (by decide) admin
  | fourOctetAs admin _ => exact notMem_decimal (by decide) admin

theorem not_twins_self : ¬ Twins routeDist routeDist := by
  cases routeDist <;> exact id

end

/-- The text does not tell a number of two octets from one of four. -/
theorem adminText_and_assigned_iff (h : RouteDistOk routeDist) (h' : RouteDistOk routeDist') :
    routeDist.adminText = routeDist'.adminText ∧ routeDist.assigned = routeDist'.assigned ↔
      routeDist = routeDist' ∨ Twins routeDist routeDist' := by
  have hdot : ∀ {admin : Bytes} {n : Nat}, admin.length = 4 → ipv4Text admin ≠ decimal n := by
    intro admin n hlen heq
    refine notMem_decimal (c := '.') (by decide) n ?_
    rw [← heq]
    exact mem_octetsText (by omega)
  cases routeDist <;> cases routeDist' <;>
    simp only [adminText, assigned, Twins, decimal_inj, reduceCtorEq, false_or, or_false,
      twoOctetAs.injEq, fourOctetAs.injEq, ipv4Address.injEq]
  · exact iff_of_false (fun heq => hdot h'.1 heq.1.symm) id
  · exact iff_of_false (fun heq => hdot h.1 heq.1) id
  · refine and_congr_left fun _ => ⟨fun heq => octetsText_inj (by decide) heq, ?_⟩
    rintro rfl
    rfl
  · exact iff_of_false (fun heq => hdot h.1 heq.1) id
  · exact iff_of_false (fun heq => hdot h'.1 heq.1.symm) id

end RouteDistinguisher

/-! ## Routes and their keys -/

/-- A VPN route to an IP prefix. -/
structure VpnRoute where
  isV6 : Bool
  labels : List Nat
  routeDist : RouteDistinguisher
  masklen : Nat
  addr : Bytes
  routeDist_ok : RouteDistOk routeDist
  addr_length : addr.length = if isV6 then 16 else 4
  masklen_le : masklen ≤ 8 * addr.length

namespace VpnRoute

/-- The arguments of the constructor. -/
def args (route : VpnRoute) (routeDist : RouteDistArg) : PrefixArgs :=
  ⟨route.isV6, .vpn route.labels routeDist, route.masklen, route.addr⟩

/-- The NLRI, with the length of everything in it. -/
def nlri (route : VpnRoute) : Nlri := (route.args (.object route.routeDist)).nlri

/-- The NLRI of a route is constructed or read from the wire. -/
inductive Made (route : VpnRoute) : Nlri → Prop
  | constructed (routeDist : RouteDistArg) {nlri : Nlri} (h : routeDist.make = route.routeDist)
      (hnlri : (route.args routeDist).construct = .ok nlri) : Made route nlri
  | parsed {buf rest : Bytes}
      (h : parseNlri (route.args (.object route.routeDist)).cls buf = .ok (route.nlri, rest)) :
      Made route route.nlri

variable (ipv6Text : Bytes → List Char) (route route' : VpnRoute)

def addrText : List Char := if route.isV6 then ipv6Text route.addr else ipv4Text route.addr

/-- The route distinguisher is the same, and so are the bits of the IP prefix. -/
def Same : Prop :=
  route.routeDist = route'.routeDist ∧ route.isV6 = route'.isV6 ∧ route.masklen = route'.masklen ∧
    beDecode route.addr / 2 ^ (8 * route.addr.length - route.masklen) =
      beDecode route'.addr / 2 ^ (8 * route'.addr.length - route'.masklen)

/-- Both NLRI show their IP prefix, and they have one key exactly if they are for the same. -/
def Keyed (nlri nlri' : Nlri) : Prop :=
  nlri.prefixText ipv6Text = .ok (route.addrText ipv6Text ++ '/' :: decimal route.masklen) ∧
  nlri'.prefixText ipv6Text = .ok (route'.addrText ipv6Text ++ '/' :: decimal route'.masklen) ∧
  ∃ key key', vpnTableKey ipv6Text nlri = .ok key ∧ vpnTableKey ipv6Text nlri' = .ok key' ∧
    (key = key' ↔ route.Same route')

variable {ipv6Text route route'}

theorem Made.eq_nlri {nlri : Nlri} (h : route.Made nlri) : nlri = route.nlri := by
  cases h with
  | constructed routeDist h hnlri =>
    rw [PrefixArgs.construct_eq] at hnlri
    split at hnlri
    · cases hnlri
      have hobject : (RouteDistArg.object route.routeDist).make = route.routeDist := rfl
      cases hv6 : route.isV6 <;>
        simp only [VpnRoute.nlri, args, PrefixArgs.nlri, hv6, h, hobject, PrefixKind.overhead]
    · cases hnlri
  | parsed h => rfl

/-- The mask that is shown is right for one label. -/
theorem prefixText_nlri :
    route.nlri.prefixText ipv6Text = .ok (route.addrText ipv6Text ++ '/' ::
      intText (route.masklen + 24 * route.labels.length - 24)) := by
  have hmask : ∀ items : List AddrItem, items.length = 3 →
      vpnMasklen (24 * route.labels.length + 64 + route.masklen) items =
        route.masklen + 24 * route.labels.length - 24 := by
    intro items hitems
    rw [vpnMasklen, length_dropLast, length_dropLast, hitems]
    omega
  cases hv6 : route.isV6 <;>
    simp only [nlri, args, PrefixArgs.nlri, hv6, Nlri.prefixText, PrefixKind.overhead, addrText] <;>
    rw [hmask _ rfl] <;> rfl

theorem prefixText_nlri_eq_iff :
    route.nlri.prefixText ipv6Text = .ok (route.addrText ipv6Text ++ '/' :: decimal route.masklen) ↔
      route.labels.length = 1 := by
  rw [prefixText_nlri, Except.ok.injEq, append_right_inj, cons_inj_right, intText_eq_decimal]
  omega

theorem routeDistText_nlri : route.nlri.routeDistText = .ok route.routeDist.formattedStr := by
  cases hv6 : route.isV6 <;> simp only [nlri, args, PrefixArgs.nlri, hv6] <;> rfl

theorem vpnTableKey_nlri (h : route.labels.length = 1) :
    vpnTableKey ipv6Text route.nlri = .ok (route.routeDist.formattedStr ++
      ':' :: (route.addrText ipv6Text ++ '/' :: decimal route.masklen)) := by
  simp only [vpnTableKey, routeDistText_nlri, prefixText_nlri_eq_iff.2 h]
  rfl

theorem addrText_inj (htexts : Ipv6Texts ipv6Text) :
    route.addrText ipv6Text = route'.addrText ipv6Text ↔
      route.isV6 = route'.isV6 ∧ route.addr = route'.addr := by
  have hne : ∀ {addr addr' : Bytes}, addr.length = 16 → ipv6Text addr ≠ ipv4Text addr' := by
    intro addr addr' hlen heq
    have hmem : ':' ∈ ipv4Text addr' := heq ▸ htexts.colon_mem hlen
    exact notMem_octetsText (by decide) (by decide) addr' hmem
  have hlen := route.addr_length
  have hlen' := route'.addr_length
  unfold addrText
  cases hv6 : route.isV6 <;> cases hv6' : route'.isV6 <;> rw [hv6] at hlen <;> rw [hv6'] at hlen'
  · refine ⟨fun heq => ⟨rfl, octetsText_inj (by decide) heq⟩, fun h => ?_⟩
    exact congrArg ipv4Text h.2
  · exact iff_of_false (fun heq => hne hlen' heq.symm) (by simp)
  · exact iff_of_false (hne hlen) (by simp)
  · exact ⟨fun heq => ⟨rfl, htexts.inj hlen hlen' heq⟩, fun h => congrArg ipv6Text h.2⟩

/-- What can be read back from a key with the right mask. -/
theorem key_eq_iff (htexts : Ipv6Texts ipv6Text) :
    route.routeDist.formattedStr ++
      ':' :: (route.addrText ipv6Text ++ '/' :: decimal route.masklen) =
      route'.routeDist.formattedStr ++
        ':' :: (route'.addrText ipv6Text ++ '/' :: decimal route'.masklen) ↔
    (route.routeDist = route'.routeDist ∨ route.routeDist.Twins route'.routeDist) ∧
      (route.isV6 = route'.isV6 ∧ route.addr = route'.addr) ∧ route.masklen = route'.masklen := by
  have hslash := fun n => notMem_decimal (c := '/') (by decide) n
  have hcolon := fun n => notMem_decimal (c := ':') (by decide) n
  rw [RouteDistinguisher.formattedStr_eq, RouteDistinguisher.formattedStr_eq, append_assoc,
    append_assoc, cons_append, cons_append,
    append_cons_inj_front (RouteDistinguisher.colon_notMem_adminText _)
      (RouteDistinguisher.colon_notMem_adminText _),
    append_cons_inj_front (hcolon _) (hcolon _), append_cons_inj_back (hslash _) (hslash _),
    decimal_inj, decimal_inj, addrText_inj htexts, ← and_assoc,
    RouteDistinguisher.adminText_and_assigned_iff route.routeDist_ok route'.routeDist_ok]

/-- A pair of VPN routes has the right keys if both have one label, their route distinguishers do
not differ in the type alone, and the same prefix is not given with different bits behind it. -/
theorem keyed_iff_one_label (htexts : Ipv6Texts ipv6Text) {nlri nlri' : Nlri}
    (h : route.Made nlri) (h' : route'.Made nlri') :
    Keyed ipv6Text route route' nlri nlri' ↔
      route.labels.length = 1 ∧ route'.labels.length = 1 ∧
      (route.routeDist.Twins route'.routeDist → route.isV6 = route'.isV6 →
        route.masklen = route'.masklen → route.addr ≠ route'.addr) ∧
      (route.Same route' → route.addr = route'.addr) := by
  rw [h.eq_nlri, h'.eq_nlri, Keyed, prefixText_nlri_eq_iff, prefixText_nlri_eq_iff]
  refine and_congr_right fun hone => and_congr_right fun hone' => ?_
  rw [vpnTableKey_nlri hone, vpnTableKey_nlri hone']
  simp only [Except.ok.injEq, exists_and_left, exists_eq_left', key_eq_iff htexts, Same]
  constructor
  · intro hkeys
    refine ⟨fun htwins hv6 hmask haddr => ?_, fun hsame => (hkeys.2 hsame).2.1.2⟩
    have heq := (hkeys.1 ⟨Or.inr htwins, ⟨hv6, haddr⟩, hmask⟩).1
    exact RouteDistinguisher.not_twins_self _ (heq ▸ htwins)
  · rintro ⟨htwins, hbits⟩
    constructor
    · rintro ⟨heq | htwin, ⟨hv6, haddr⟩, hmask⟩
      · exact ⟨heq, hv6, hmask, by rw [haddr, hmask]⟩
      · exact absurd haddr (htwins htwin hv6 hmask)
    · exact fun hsame => ⟨Or.inl hsame.1, ⟨hsame.2.1, hbits hsame⟩, hsame.2.2.1⟩

/-- A route to 10.b.0.0/16 with the route distinguisher 1:1. -/
def ten (b : UInt8) (labels : List Nat) : VpnRoute :=
  ⟨false, labels, .twoOctetAs 1 1, 16, [10, b, 0, 0], by decide, rfl, by simp⟩

theorem ten_made (b : UInt8) (labels : List Nat) : (ten b labels).Made (ten b labels).nlri := by
  refine .constructed (.object (.twoOctetAs 1 1)) rfl ?_
  rw [PrefixArgs.construct_eq]
  exact if_pos (Or.inr (by decide : 1 ≤ 16))

theorem keyed_ten_one_two :
    Keyed (octetsText ':') (ten 1 [16]) (ten 2 [17]) (ten 1 [16]).nlri (ten 2 [17]).nlri := by
  have htexts : Ipv6Texts (octetsText ':') :=
    ⟨fun _ _ h => octetsText_inj (by decide) h, fun h => mem_octetsText (by omega)⟩
  refine (keyed_iff_one_label htexts (ten_made 1 [16]) (ten_made 2 [17])).2
    ⟨rfl, rfl, fun h => ?_, ?_⟩
  · exact absurd h (RouteDistinguisher.not_twins_self _)
  · rintro ⟨-, -, -, hbits⟩
    exact absurd hbits (by decide)

/-- With two labels 10.1.0.0/16 shows as 10.1.0.0/40, and has another key than with one. -/
theorem not_keyed_two_labels :
    (ten 1 [16]).Made (ten 1 [16]).nlri ∧ (ten 1 [16, 17]).Made (ten 1 [16, 17]).nlri ∧
    (ten 1 [16, 17]).Same (ten 1 [16]) ∧
    ∀ ipv6Text, (ten 1 [16, 17]).nlri.prefixText ipv6Text =
        .ok (ipv4Text [10, 1, 0, 0] ++ '/' :: decimal 40) ∧
      vpnTableKey ipv6Text (ten 1 [16, 17]).nlri ≠ vpnTableKey ipv6Text (ten 1 [16]).nlri := by
  refine ⟨ten_made 1 [16], ten_made 1 [16, 17], ⟨rfl, rfl, rfl, rfl⟩, fun ipv6Text => ⟨rfl, ?_⟩⟩
  change vpnTableKey (octetsText ':') (ten 1 [16, 17]).nlri ≠
    vpnTableKey (octetsText ':') (ten 1 [16]).nlri
  decide

end VpnRoute

end BebaCtrl.Bgp
