import BebaCtrl.Bgp.ConstructUpdate

/-!
# What the filters of an attribute map match

A filter is meant to look at the AS path and at the IP prefix of a route. The AS path filter looks
at the first segment of the path only, and cannot index a set. The prefix filter compares its bounds
with the length of the whole NLRI, which counts the labels and the route distinguisher of a VPN
route, and takes a bound of 0 for one that is not there.
-/

namespace BebaCtrl.Bgp.ConstructUpdate

open List

/-! ## AS paths -/

/-- The AS numbers of a path in their order. -/
def asNumbers (value : List AsSegment) : List Nat := value.flatMap AsSegment.numbers

/-- The AS number at one end of a segment. A set has no order, so it has an end only if it has one
number. -/
def segmentEnd (pick : List Nat → Option Nat) : AsSegment → Option Nat
  | .asSequence l => pick l
  | .asSet [a] => some a
  | .asSet _ => none

/-- The first AS of a path; segments without numbers do not count. -/
def firstAs (value : List AsSegment) : Option Nat :=
  (value.find? fun seg => !seg.numbers.isEmpty).bind (segmentEnd head?)

def lastAs (value : List AsSegment) : Option Nat :=
  (value.reverse.find? fun seg => !seg.numbers.isEmpty).bind (segmentEnd getLast?)

namespace ASPathFilter

/-- The filter does not raise, and matches when `P` holds. -/
def Decides (f : ASPathFilter) (value : List AsSegment) (P : Prop) : Prop :=
  ∃ result, f.evaluate value = .ok (f.policy, result) ∧ (result = true ↔ P)

/-- The first segment can be indexed: it is not a set, or it is empty. -/
def Indexable : AsSegment → Prop
  | .asSequence _ => True
  | .asSet l => l = []

variable (seg : AsSegment) (rest : List AsSegment) {f : ASPathFilter}

theorem decides_iff_of_eq {value : List AsSegment} {P : Prop} (result : Bool)
    (h : f.evaluate value = .ok (f.policy, result)) : f.Decides value P ↔ (result = true ↔ P) := by
  constructor
  · rintro ⟨result', h', hiff⟩
    cases h.symm.trans h'
    exact hiff
  · exact fun hiff => ⟨result, h, hiff⟩

theorem atEnd_eq_ok_iff {pick : List Nat → Option Nat} (hpick : pick [] = none) {result : Bool} :
    f.atEnd seg pick = .ok result ↔
      Indexable seg ∧ result = (pick seg.numbers == some f.asNumber) := by
  cases seg with
  | asSequence l => simp [atEnd, Indexable, AsSegment.numbers, eq_comm]
  | asSet l =>
    rcases eq_or_ne l [] with rfl | hl
    · simp [atEnd, Indexable, AsSegment.numbers, hpick, eq_comm]
    · simp [atEnd, Indexable, hl]

/-- The two policies that index the first segment. -/
theorem decides_atEnd_iff (pick : List Nat → Option Nat) (hpick : pick [] = none)
    (heval : f.evaluate (seg :: rest) = (f.atEnd seg pick).map fun result => (f.policy, result))
    {P : Prop} :
    f.Decides (seg :: rest) P ↔ Indexable seg ∧ (pick seg.numbers = some f.asNumber ↔ P) := by
  unfold Decides
  rw [heval]
  constructor
  · rintro ⟨result, hok, hiff⟩
    cases hatEnd : f.atEnd seg pick with
    | error e => simp [hatEnd, Except.map] at hok
    | ok result' =>
      rw [hatEnd] at hok
      cases hok
      obtain ⟨hindex, rfl⟩ := (atEnd_eq_ok_iff seg hpick).1 hatEnd
      exact ⟨hindex, by simpa using hiff⟩
  · rintro ⟨hindex, hiff⟩
    refine ⟨pick seg.numbers == some f.asNumber, ?_, by simpa using hiff⟩
    rw [(atEnd_eq_ok_iff seg hpick).2 ⟨hindex, rfl⟩]
    rfl

theorem firstAs_cons_of_ne_nil (hindex : Indexable seg) (hne : seg.numbers ≠ []) :
    firstAs (seg :: rest) = seg.numbers.head? := by
  cases seg with
  | asSequence l => simp_all [firstAs, segmentEnd, AsSegment.numbers]
  | asSet l => exact absurd hindex hne

/-- The policies on the ends of a path and on its members, on the first segment and on the path. -/
theorem asPathFilter_decides_iff (a : Nat) (value : List AsSegment) :
    (Decides ⟨a, policyTop⟩ value (firstAs value = some a) ↔
      ∀ seg ∈ value.head?, Indexable seg ∧ (seg.numbers = [] → firstAs value ≠ some a)) ∧
    (Decides ⟨a, policyEnd⟩ value (lastAs value = some a) ↔
      ∀ seg ∈ value.head?, Indexable seg ∧
        (seg.numbers.getLast? = some a ↔ lastAs value = some a)) ∧
    (Decides ⟨a, policyInclude⟩ value (∃ seg ∈ value, a ∈ seg.numbers) ↔
      ∀ seg ∈ value.head?, a ∈ asNumbers value → a ∈ seg.numbers) ∧
    (Decides ⟨a, policyNotInclude⟩ value (∀ seg ∈ value, a ∉ seg.numbers) ↔
      ∀ seg ∈ value.head?, a ∈ asNumbers value → a ∈ seg.numbers) := by
  cases value with
  | nil =>
    refine ⟨?_, ?_, ?_, ?_⟩ <;> refine iff_of_true ⟨_, rfl, ?_⟩ (by simp)
    all_goals simp [firstAs, lastAs, AsSegment.numbers]
  | cons seg rest =>
    simp only [head?_cons, Option.mem_def, Option.some.injEq, forall_eq']
    have hmem : a ∈ asNumbers (seg :: rest) ↔ ∃ s ∈ seg :: rest, a ∈ s.numbers := by
      rw [asNumbers, mem_flatMap]
    refine ⟨?_, decides_atEnd_iff seg rest getLast? rfl rfl, ?_, ?_⟩
    · rw [decides_atEnd_iff seg rest head? rfl rfl]
      refine and_congr_right fun hindex => ?_
      rcases eq_or_ne seg.numbers [] with hnil | hne
      · simp [hnil, eq_comm]
      · simp [firstAs_cons_of_ne_nil seg rest hindex hne, hne]
    · rw [decides_iff_of_eq (seg.numbers.contains a) rfl, hmem, contains_iff_mem]
      exact ⟨fun h => h.2, fun h => ⟨fun ha => ⟨seg, by simp, ha⟩, h⟩⟩
    · rw [decides_iff_of_eq (!seg.numbers.contains a) rfl, hmem]
      simp only [Bool.not_eq_true', contains_eq_mem, decide_eq_false_iff_not]
      constructor
      · rintro h ⟨s, hs, ha⟩
        by_contra hseg
        exact h.1 hseg s hs ha
      · exact fun h => ⟨fun hseg s hs ha => hseg (h ⟨s, hs, ha⟩), fun h' => h' seg (by simp)⟩

/-- A path that begins with a set raises, and what stands behind the first segment is not seen. -/
theorem not_decides_second_segment :
    evaluate ⟨65001, policyTop⟩ [.asSet [65001, 65002]] = .error .typeError ∧
    ¬Decides ⟨65002, policyEnd⟩ [.asSequence [65001], .asSequence [65002]]
      (lastAs [.asSequence [65001], .asSequence [65002]] = some 65002) ∧
    ¬Decides ⟨65002, policyInclude⟩ [.asSequence [65001], .asSet [65002, 65003]]
      (∃ seg ∈ [AsSegment.asSequence [65001], .asSet [65002, 65003]], 65002 ∈ seg.numbers) := by
  refine ⟨by decide, ?_, ?_⟩
  · rw [decides_iff_of_eq false rfl]
    decide
  · rw [decides_iff_of_eq false rfl]
    decide

end ASPathFilter

/-! ## Prefixes -/

/-- A route to an IP network, plain or with the labels and the route distinguisher of a VPN. -/
structure IpRoute where
  isV6 : Bool
  vpn : Option (List Nat × RouteDistinguisher)
  net : IPNetwork
  addr_length : net.addr.length = if isV6 then 16 else 4
  prefixlen_le : net.prefixlen ≤ 8 * net.addr.length

namespace IpRoute

variable (route : IpRoute)

/-- What the labels and the route distinguisher add to the length. -/
def overhead : Nat :=
  match route.vpn with
  | none => 0
  | some (labels, _) => 64 + 24 * labels.length

/-- The NLRI, whose length is that on the wire. -/
def nlri : Nlri :=
  let length := route.net.prefixlen + route.overhead
  match route.isV6, route.vpn with
  | false, none => .ip length route.net.addr
  | true, none => .ip6 length route.net.addr
  | false, some (labels, routeDist) => .vpnIp length labels routeDist route.net.addr
  | true, some (labels, routeDist) => .vpnIp6 length labels routeDist route.net.addr

/-- The mask in `prefix`. A VPN route has the right one if it has one label. -/
def mask : Int :=
  match route.vpn with
  | none => route.net.prefixlen
  | some (labels, _) => route.net.prefixlen + 24 * labels.length - 24

theorem lengthAndNetwork_nlri [Netaddr] :
    lengthAndNetwork route.nlri = do
      let net ← Netaddr.ipNetwork route.net.addr route.mask
      return (route.net.prefixlen + route.overhead, net) := by
  obtain ⟨isV6, vpn, net, haddr, hle⟩ := route
  rcases vpn with _ | ⟨labels, routeDist⟩
  · cases isV6 <;> rfl
  · have hmask : ((net.prefixlen + (64 + 24 * labels.length) : Nat) : Int) - 64 - 24 =
        net.prefixlen + 24 * labels.length - 24 := by omega
    cases isV6 <;> simp only [nlri, overhead, mask, lengthAndNetwork, hmask]

end IpRoute

namespace PrefixFilter

section

variable [Netaddr] (f : PrefixFilter) (route : IpRoute)

/-- What the filter should match. -/
def Matches (net : IPNetwork) : Prop :=
  Netaddr.contains f.network net ∧ (∀ ge ∈ f.ge, ge ≤ net.prefixlen) ∧
    ∀ le ∈ f.le, net.prefixlen ≤ le

/-- The filter does not raise, and reports a match when there is one. -/
def Decides : Prop :=
  ∃ result, f.evaluate route.nlri = .ok (f.policy, result) ∧ (result = true ↔ f.Matches route.net)

/-- The bounds as they are compared with the length of the NLRI. -/
def MeetsBounds (length : Nat) : Prop :=
  (∀ ge ∈ f.ge, ge ≠ 0 ∧ ge ≤ length) ∧ ∀ le ∈ f.le, le ≠ 0 ∧ length ≤ le

variable {masklen : Nat}

theorem evaluate_of_mask (hmask : route.mask = masklen)
    (hle : masklen ≤ 8 * route.net.addr.length) :
    ∃ result, f.evaluate route.nlri = .ok (f.policy, result) ∧
      (result = true ↔ f.network.covers route.net.addr ∧ f.network.prefixlen ≤ masklen ∧
        f.MeetsBounds (route.net.prefixlen + route.overhead)) := by
  have hnet : Netaddr.ipNetwork route.net.addr route.mask = .ok ⟨route.net.addr, masklen⟩ := by
    rw [hmask, Netaddr.ipNetwork_eq_ok_iff, Int.toNat_natCast]
    exact ⟨by omega, by omega, rfl⟩
  simp only [evaluate, route.lengthAndNetwork_nlri, hnet]
  refine ⟨_, rfl, ?_⟩
  rw [Bool.and_eq_true, Netaddr.contains_iff, and_assoc]
  cases hge : f.ge <;> cases hle : f.le <;> simp [MeetsBounds, hge, hle, and_assoc, and_left_comm]

/-- A mask that no address has raises. -/
theorem mask_of_evaluate {r : Nat × Bool} (h : f.evaluate route.nlri = .ok r) :
    ∃ masklen : Nat, route.mask = masklen ∧ masklen ≤ 8 * route.net.addr.length := by
  obtain ⟨⟨length, net⟩, hnet, -⟩ := bind_eq_ok.1 h
  rw [route.lengthAndNetwork_nlri] at hnet
  obtain ⟨net', hnet', -⟩ := bind_eq_ok.1 hnet
  obtain ⟨hnonneg, hle, -⟩ := (Netaddr.ipNetwork_eq_ok_iff _ _ _).1 hnet'
  exact ⟨route.mask.toNat, (Int.toNat_of_nonneg hnonneg).symm, by omega⟩

/-- The routes for which the filter is right. A plain route only needs bounds that are not 0. In a
VPN route the mask is off by 24 for each label but one, and the bounds by the whole overhead. -/
def Right : Prop :=
  match route.vpn with
  | none => f.Matches route.net → f.ge ≠ some 0 ∧ f.le ≠ some 0
  | some (labels, _) =>
    ∃ masklen : Nat, masklen + 24 = route.net.prefixlen + 24 * labels.length ∧
      masklen ≤ 8 * route.net.addr.length ∧
      (f.network.covers route.net.addr →
        -- both match, or neither does
        (f.network.prefixlen ≤ min route.net.prefixlen masklen ∧
          (∀ ge ∈ f.ge, ge ≠ 0 ∧ ge ≤ route.net.prefixlen) ∧
          ∀ le ∈ f.le, route.net.prefixlen + (64 + 24 * labels.length) ≤ le) ∨
        (¬f.Matches route.net ∧
          (masklen < f.network.prefixlen ∨
            ¬f.MeetsBounds (route.net.prefixlen + (64 + 24 * labels.length)))))

theorem matches_iff (net : IPNetwork) :
    f.Matches net ↔ f.network.covers net.addr ∧ f.network.prefixlen ≤ net.prefixlen ∧
      (∀ ge ∈ f.ge, ge ≤ net.prefixlen) ∧ ∀ le ∈ f.le, net.prefixlen ≤ le := by
  rw [Matches, Netaddr.contains_iff, and_assoc]

theorem decides_iff_of_mask (hmask : route.mask = masklen)
    (hle : masklen ≤ 8 * route.net.addr.length) :
    f.Decides route ↔ (f.network.covers route.net.addr ∧ f.network.prefixlen ≤ masklen ∧
      f.MeetsBounds (route.net.prefixlen + route.overhead) ↔ f.Matches route.net) := by
  obtain ⟨result, heval, hresult⟩ := f.evaluate_of_mask route hmask hle
  rw [← hresult]
  constructor
  · rintro ⟨result', heval', hiff⟩
    cases heval.symm.trans heval'
    exact hiff
  · exact fun hiff => ⟨result, heval, hiff⟩

omit [Netaddr] in
theorem meetsBounds_iff_of_plain (length : Nat) :
    f.MeetsBounds length ↔ (f.ge ≠ some 0 ∧ f.le ≠ some 0) ∧
      (∀ ge ∈ f.ge, ge ≤ length) ∧ ∀ le ∈ f.le, length ≤ le := by
  cases hge : f.ge <;> cases hle : f.le <;>
    simp [MeetsBounds, hge, hle, and_assoc, and_left_comm]

omit [Netaddr] in
/-- A bound that the NLRI meets for both lengths. -/
theorem both_iff (length overhead masklen : Nat) :
    (f.network.prefixlen ≤ length ∧ (∀ ge ∈ f.ge, ge ≤ length) ∧ ∀ le ∈ f.le, length ≤ le) ∧
        f.network.prefixlen ≤ masklen ∧ f.MeetsBounds (length + overhead) ↔
      f.network.prefixlen ≤ min length masklen ∧ (∀ ge ∈ f.ge, ge ≠ 0 ∧ ge ≤ length) ∧
        ∀ le ∈ f.le, le ≠ 0 ∧ length + overhead ≤ le := by
  rw [Nat.le_min]
  constructor
  · rintro ⟨⟨hlen, hge, -⟩, hmask, hge', hle⟩
    exact ⟨⟨hlen, hmask⟩, fun ge h => ⟨(hge' ge h).1, hge ge h⟩, hle⟩
  · rintro ⟨⟨hlen, hmask⟩, hge, hle⟩
    refine ⟨⟨hlen, fun ge h => (hge ge h).2, fun le h => ?_⟩, hmask,
      fun ge h => ⟨(hge ge h).1, ?_⟩, hle⟩
    · have := (hle le h).2
      omega
    · have := (hge ge h).2
      omega

theorem decides_iff_of_plain (hvpn : route.vpn = none) :
    f.Decides route ↔ (f.Matches route.net → f.ge ≠ some 0 ∧ f.le ≠ some 0) := by
  have hmask : route.mask = route.net.prefixlen := by simp [IpRoute.mask, hvpn]
  have hoverhead : route.overhead = 0 := by simp [IpRoute.overhead, hvpn]
  rw [f.decides_iff_of_mask route hmask route.prefixlen_le, hoverhead, Nat.add_zero,
    f.meetsBounds_iff_of_plain, f.matches_iff]
  constructor
  · exact fun h hmatches => (h.2 hmatches).2.2.1
  · exact fun h => ⟨fun ⟨hcovers, hlen, _, hbounds⟩ => ⟨hcovers, hlen, hbounds⟩,
      fun hmatches => ⟨hmatches.1, hmatches.2.1, h hmatches, hmatches.2.2⟩⟩

theorem decides_iff_of_vpn {labels : List Nat} {routeDist : RouteDistinguisher}
    (hvpn : route.vpn = some (labels, routeDist))
    (hmask : masklen + 24 = route.net.prefixlen + 24 * labels.length)
    (hle : masklen ≤ 8 * route.net.addr.length) :
    f.Decides route ↔ (f.network.covers route.net.addr →
      (f.network.prefixlen ≤ min route.net.prefixlen masklen ∧
        (∀ ge ∈ f.ge, ge ≠ 0 ∧ ge ≤ route.net.prefixlen) ∧
        ∀ le ∈ f.le, route.net.prefixlen + (64 + 24 * labels.length) ≤ le) ∨
      (¬f.Matches route.net ∧ (masklen < f.network.prefixlen ∨
        ¬f.MeetsBounds (route.net.prefixlen + (64 + 24 * labels.length))))) := by
  have hmask' : route.mask = masklen := by
    simp only [IpRoute.mask, hvpn]
    omega
  have hoverhead : route.overhead = 64 + 24 * labels.length := by simp [IpRoute.overhead, hvpn]
  have hle_iff : (∀ le ∈ f.le, route.net.prefixlen + (64 + 24 * labels.length) ≤ le) ↔
      ∀ le ∈ f.le, le ≠ 0 ∧ route.net.prefixlen + (64 + 24 * labels.length) ≤ le :=
    forall₂_congr fun le _ => by omega
  rw [f.decides_iff_of_mask route hmask' hle, hoverhead, f.matches_iff, hle_iff, ← f.both_iff,
    ← Nat.not_le, ← not_and_or]
  by_cases hcovers : f.network.covers route.net.addr
  · simp only [hcovers, true_and, forall_const]
    exact Iff.comm.trans iff_iff_and_or_not_and_not
  · simp [hcovers]

theorem prefixFilter_decides_iff (f : PrefixFilter) (route : IpRoute) :
    f.Decides route ↔ f.Right route := by
  unfold Right
  cases hvpn : route.vpn with
  | none => exact f.decides_iff_of_plain route hvpn
  | some vpn =>
    obtain ⟨labels, routeDist⟩ := vpn
    have hmask : route.mask = route.net.prefixlen + 24 * labels.length - 24 := by
      simp [IpRoute.mask, hvpn]
    constructor
    · rintro ⟨result, heval, hiff⟩
      obtain ⟨masklen, hmasklen, hle⟩ := f.mask_of_evaluate route heval
      have heq : masklen + 24 = route.net.prefixlen + 24 * labels.length := by omega
      exact ⟨masklen, heq, hle, (f.decides_iff_of_vpn route hvpn heq hle).1 ⟨result, heval, hiff⟩⟩
    · rintro ⟨masklen, heq, hle, h⟩
      exact (f.decides_iff_of_vpn route hvpn heq hle).2 h

end

/-- The network 10.1.0.0/16, plain and in a VPN. -/
def ipRoute (vpn : Option (List Nat × RouteDistinguisher)) : IpRoute :=
  ⟨false, vpn, ⟨[10, 1, 0, 0], 16⟩, rfl, by decide⟩

/-- A lower bound of 0 keeps a plain route out. In a VPN, the upper bound 24 does so, two labels
make the mask 40, and no label makes it negative. -/
theorem not_decides_bounds :
    ¬Decides ⟨⟨[10, 0, 0, 0], 8⟩, 0, some 0, none⟩ (ipRoute none) ∧
    ¬Decides ⟨⟨[10, 0, 0, 0], 8⟩, 0, none, some 24⟩ (ipRoute (some ([20], .twoOctetAs 65000 1))) ∧
    evaluate ⟨⟨[10, 0, 0, 0], 8⟩, 0, none, none⟩
        (ipRoute (some ([20, 21], .twoOctetAs 65000 1))).nlri =
      .error (.other "AddrFormatError") ∧
    evaluate ⟨⟨[10, 0, 0, 0], 8⟩, 0, none, none⟩ (ipRoute (some ([], .twoOctetAs 65000 1))).nlri =
      .error (.other "AddrFormatError") := by
  have hin : Netaddr.contains ⟨[10, 0, 0, 0], 8⟩ ⟨[10, 1, 0, 0], 16⟩ = true := by decide
  refine ⟨?_, ?_, by decide, by decide⟩
  · rw [decides_iff_of_plain _ _ rfl]
    exact fun h => (h ⟨hin, by simp [ipRoute], by simp⟩).1 rfl
  · rintro ⟨result, heval, hiff⟩
    have hfalse : evaluate ⟨⟨[10, 0, 0, 0], 8⟩, 0, none, some 24⟩
        (ipRoute (some ([20], .twoOctetAs 65000 1))).nlri = .ok (0, false) := by decide
    cases heval.symm.trans hfalse
    exact absurd (hiff.2 ⟨hin, by simp, by simp [ipRoute]⟩) (by decide)

end PrefixFilter

end BebaCtrl.Bgp.ConstructUpdate
