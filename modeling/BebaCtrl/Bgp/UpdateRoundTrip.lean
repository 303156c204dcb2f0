import BebaCtrl.Bgp.PrefixRoundTrip

/-!
# UPDATE messages, serialized and parsed again

Lengths, counts and the width of the length of an attribute are recomputed by the serializers, and
the parsers read them back: an attribute is a frame that the parser takes whole, whatever follows,
and so is a prefix. What a message loses is what its prefixes lose (`roundTrips_iff`).
-/

namespace BebaCtrl.Bgp.Wire

open Struct List

/-- The bytes of a serializer, which are the same whatever it leaves of the object, and a condition
under which it does not raise. -/
structure WritesTo {α : Type} (x : PyResult (Bytes × α)) (bin : Bytes) (ok : Prop) : Prop where
  eq_bin : ∀ {b a}, x = .ok (b, a) → b = bin
  ends : ok → ∃ a, x = .ok (bin, a)

variable {bin : Bytes} {ok : Prop} {α : Type} {x : PyResult (Bytes × α)}

theorem WritesTo.of_eq {a : α} (h : x = .ok (bin, a)) :
    WritesTo x bin ok := by
  subst h
  exact ⟨fun h => by cases h; rfl, fun _ => ⟨_, rfl⟩⟩

theorem WritesTo.imp {ok' : Prop} (h : WritesTo x bin ok) (himp : ok' → ok) : WritesTo x bin ok' :=
  ⟨h.eq_bin, fun hok => h.ends (himp hok)⟩

theorem WritesTo.bind {β : Type} {f : Bytes × α → PyResult (Bytes × β)} {out : Bytes} {ok' : Prop}
    (h : WritesTo x bin ok) (hf : ∀ a, WritesTo (f (bin, a)) out ok') :
    WritesTo (x >>= f) out (ok ∧ ok') := by
  constructor
  · intro b a hok
    obtain ⟨⟨bin', a'⟩, hx, hok⟩ := bind_eq_ok.1 hok
    obtain rfl := h.eq_bin hx
    exact (hf a').eq_bin hok
  · rintro ⟨hok, hok'⟩
    obtain ⟨a, ha⟩ := h.ends hok
    rw [ha]
    exact (hf a).ends hok'

/-- What follows does not raise. -/
theorem WritesTo.bind_pure {β : Type} {f : Bytes × α → PyResult (Bytes × β)} {out : Bytes}
    (h : WritesTo x bin ok) (hf : ∀ a, ∃ b, f (bin, a) = .ok (out, b)) :
    WritesTo (x >>= f) out ok := by
  have hout : ∀ a, WritesTo (f (bin, a)) out True := fun a => (hf a).elim fun _ hb => .of_eq hb
  have hbind := h.bind hout
  exact hbind.imp fun hok => ⟨hok, trivial⟩

theorem serializeAll_cons (serialize : α → PyResult (Bytes × α)) (x : α) (xs : List α) :
    serializeAll serialize (x :: xs) = serialize x >>= fun p =>
      serializeAll serialize xs >>= fun q => pure (p.1 ++ q.1, p.2 :: q.2) := by
  simp [serializeAll]

theorem WritesTo.serializeAll {serialize : α → PyResult (Bytes × α)} {bin : α → Bytes}
    {ok : α → Prop} {xs : List α} (h : ∀ x ∈ xs, WritesTo (serialize x) (bin x) (ok x)) :
    WritesTo (serializeAll serialize xs) (xs.map bin).flatten (∀ x ∈ xs, ok x) := by
  induction xs with
  | nil => exact .of_eq rfl
  | cons x xs ih =>
    rw [serializeAll_cons]
    have htail := ih fun x hx => h x (mem_cons_of_mem _ hx)
    refine WritesTo.imp (.bind (h x (mem_cons_self ..)) fun a => ?_) forall_mem_cons.1
    exact htail.bind_pure fun _ => ⟨_, rfl⟩

variable {cls : AddrClass}

theorem NlriFits.writesTo {nlri : Nlri} (h : NlriFits cls nlri) :
    WritesTo (serializeNlri nlri) (nlriBin nlri) (NlriRecoverable nlri) := by
  rw [h.serializeNlri_eq]
  constructor
  · intro b a hok
    cases hset : setAddr (addrBin nlri) nlri with
    | error e => simp [hset, Except.map] at hok
    | ok fixed =>
      rw [hset] at hok
      cases hok
      rfl
  · intro hok
    rw [h.setAddr_eq_ok (h.makeNlri_iff.2 hok)]
    exact ⟨nlri, rfl⟩

variable {routes : List Nlri}

/-- The routes of a message or an attribute. -/
theorem parseNlris_eq_ok_iff (h : ∀ n ∈ routes, NlriFits cls n) :
    parseAll (parseNlri cls) (routes.map nlriBin).flatten = .ok routes ↔
      ∀ n ∈ routes, NlriRecoverable n := by
  rw [parseAll_flatten fun n hn => (h n hn).takesFrame]
  have hmap := @mapM_eq_ok_map_iff _ _ (fun n => makeNlri (lengthOf n) (addrBin n) cls) id routes
  rw [map_id] at hmap
  rw [hmap]
  exact forall₂_congr fun n hn => (h n hn).makeNlri_iff

/-! ## Values of attributes -/

def segmentType : AsSegment → Nat
  | .asSet _ => 1
  | .asSequence _ => 2

def segmentBin (size : Nat) (segment : AsSegment) : Bytes :=
  beEncode 1 (segmentType segment) ++ (beEncode 1 segment.numbers.length ++
    (segment.numbers.map (beEncode size)).flatten)

/-- A segment with as many numbers of the given size as the count can say. A set has no number
twice. -/
def SegmentFits (size : Nat) (segment : AsSegment) : Prop :=
  0 < segment.numbers.length ∧ segment.numbers.length < 256 ∧
    (∀ i ∈ segment.numbers, i < 256 ^ size) ∧ ∀ l, segment = .asSet l → l.Nodup

variable {size : Nat}

theorem parseAsNumbers_flatten {l : List Nat} (h : ∀ i ∈ l, i < 256 ^ size) (rest : Bytes) :
    parseAsNumbers size l.length ((l.map (beEncode size)).flatten ++ rest) = .ok (l, rest) := by
  induction l with
  | nil => rfl
  | cons i l ih =>
    have hi := h i (mem_cons_self ..)
    rw [map_cons, flatten_cons, append_assoc, length_cons, parseAsNumbers,
      if_neg (by simp), drop_left' (length_beEncode size i), uint_beEncode hi,
      ih fun i hi => h i (mem_cons_of_mem _ hi)]

variable {segment : AsSegment}

theorem SegmentFits.takesFrame (h : SegmentFits size segment) :
    TakesFrame (parseAsSegment size) (segmentBin size segment) (.ok segment) := by
  refine ⟨by simp [segmentBin, beEncode], fun rest => ?_⟩
  have htype : segmentType segment < 256 := by cases segment <;> simp [segmentType]
  rw [segmentBin, append_assoc, append_assoc]
  set tail := beEncode 1 segment.numbers.length ++
    ((segment.numbers.map (beEncode size)).flatten ++ rest) with htail
  have hcount : uint (beEncode 1 (segmentType segment) ++ tail) 1 2 = segment.numbers.length := by
    simp [htail, uint_append_of_le, uint_beEncode (n := 1) h.2.1]
  have hdrop : (beEncode 1 (segmentType segment) ++ tail).drop 2 =
      (segment.numbers.map (beEncode size)).flatten ++ rest := by
    rw [htail, ← append_assoc, drop_left' (by simp)]
  have hlen : ¬(beEncode 1 (segmentType segment) ++ tail).length < 2 := by
    simp only [htail, length_append, length_beEncode]
    omega
  rw [parseAsSegment, if_neg hlen, hcount, uint_beEncode (n := 1) htype, hdrop,
    parseAsNumbers_flatten h.2.2.1]
  cases segment <;> rfl

theorem SegmentFits.serializeSegment_eq (h : SegmentFits size segment) :
    serializeSegment (.uint size) segment = .ok (segmentBin size segment) := by
  have hne : segment.numbers.length ≠ 0 := by
    have := h.1
    omega
  have hnumbers : (segment.numbers.mapM fun i => pack [.uint size] [.int i]) =
      .ok (segment.numbers.map (beEncode size)) := by
    refine mapM_eq_map fun i hi => ?_
    simp [pack, fits, encode, h.2.2.1 i hi]
  have hcount := h.2.1
  cases segment <;>
    simp only [serializeSegment, if_neg hne, hnumbers] <;>
    simp [segmentBin, segmentType, pack, fits, encode, hcount]

variable {value : List AsSegment}

theorem serializeAsPath_eq (h : ∀ segment ∈ value, SegmentFits size segment) :
    serializeAsPath (.uint size) value = .ok (value.map (segmentBin size)).flatten := by
  rw [serializeAsPath, mapM_eq_map fun segment hs => (h segment hs).serializeSegment_eq]
  rfl

theorem parseAsSegments_flatten (h : ∀ segment ∈ value, SegmentFits size segment) :
    parseAll (parseAsSegment size) (value.map (segmentBin size)).flatten = .ok value := by
  rw [parseAll_flatten fun segment hs => (h segment hs).takesFrame]
  simpa using @mapM_eq_map _ _ (fun segment => .ok segment) id value fun _ _ => rfl

/-- A path with numbers of 16 bits is recognized. -/
theorem parseAsPath_flatten (h : ∀ segment ∈ value, SegmentFits 2 segment) :
    parseAsPath (value.map (segmentBin 2)).flatten = .ok value := by
  have hsegments := parseAsSegments_flatten h
  have hvalid := (isValid16bitAsPath_eq_true (Nat.le_refl _)).2
    (parseAsSegments_iff.1 ⟨value, hsegments⟩)
  rw [parseAsPath, hvalid]
  exact hsegments

theorem fours_flatten {bins : List Bytes} (h : ∀ bin ∈ bins, bin.length = 4) :
    fours bins.flatten = bins := by
  induction bins with
  | nil => rfl
  | cons bin bins ih =>
    have hlen := h bin (mem_cons_self ..)
    match bin, hlen with
    | [a, b, c, d], _ =>
      simp [fours, ih fun bin hbin => h bin (mem_cons_of_mem _ hbin)]

def ExtendedCommunityFits : ExtendedCommunity → Prop
  | .twoOctetAs type subtype asNumber localAdministrator => type < 256 ∧ type &&& 0xbf = 0 ∧
    subtype < 256 ∧ asNumber < 0x10000 ∧ localAdministrator < 0x100000000
  | .ipv4Address type subtype addr localAdministrator => type < 256 ∧ type &&& 0xbf = 1 ∧
    subtype < 256 ∧ addr.length = 4 ∧ localAdministrator < 0x10000
  | .fourOctetAs type subtype asNumber localAdministrator => type < 256 ∧ type &&& 0xbf = 2 ∧
    subtype < 256 ∧ asNumber < 0x100000000 ∧ localAdministrator < 0x10000
  | .raw type value => type < 256 ∧ 2 < type &&& 0xbf ∧ value.length = 7

def extendedCommunityBin : ExtendedCommunity → Bytes
  | .twoOctetAs type subtype asNumber localAdministrator =>
    beEncode 1 type ++
      (beEncode 1 subtype ++ (beEncode 2 asNumber ++ beEncode 4 localAdministrator))
  | .ipv4Address type subtype addr localAdministrator =>
    beEncode 1 type ++ (beEncode 1 subtype ++ (addr ++ beEncode 2 localAdministrator))
  | .fourOctetAs type subtype asNumber localAdministrator =>
    beEncode 1 type ++
      (beEncode 1 subtype ++ (beEncode 4 asNumber ++ beEncode 2 localAdministrator))
  | .raw type value => beEncode 1 type ++ value

variable {comm : ExtendedCommunity}

theorem ExtendedCommunityFits.length (h : ExtendedCommunityFits comm) :
    (extendedCommunityBin comm).length = 8 := by
  cases comm <;> simp_all [ExtendedCommunityFits, extendedCommunityBin]

theorem ExtendedCommunityFits.serialize_eq (h : ExtendedCommunityFits comm) :
    serializeExtendedCommunity comm = .ok (extendedCommunityBin comm) := by
  cases comm <;>
    simp_all [ExtendedCommunityFits, serializeExtendedCommunity, extendedCommunityBin, pack, fits,
      encode, take_of_length_le]

theorem ExtendedCommunityFits.takesFrame (h : ExtendedCommunityFits comm) :
    TakesFrame parseExtendedCommunity (extendedCommunityBin comm) (.ok comm) := by
  have hlen := h.length
  refine ⟨by rw [← length_pos_iff]; omega, fun rest => ?_⟩
  rw [parseExtendedCommunity, if_neg (by simp [hlen]), drop_left' hlen]
  unfold extendedCommunityBin
  cases comm with
  | twoOctetAs type subtype asNumber loc =>
    obtain ⟨htype, hclass, hsubtype, has, hloc⟩ := h
    simp [uint_beEncode (n := 1) htype, hclass, uint_append_of_le,
      uint_beEncode (n := 1) hsubtype, uint_beEncode (n := 2) has, uint_beEncode (n := 4) hloc,
      Except.map]
  | ipv4Address type subtype addr loc =>
    obtain ⟨htype, hclass, hsubtype, haddr, hloc⟩ := h
    simp [uint_beEncode (n := 1) htype, hclass, uint_append_of_le,
      slice_append_of_le, slice_append_left haddr, haddr,
      uint_beEncode (n := 1) hsubtype, uint_beEncode (n := 2) hloc, Except.map]
  | fourOctetAs type subtype asNumber loc =>
    obtain ⟨htype, hclass, hsubtype, has, hloc⟩ := h
    simp [uint_beEncode (n := 1) htype, hclass, uint_append_of_le,
      uint_beEncode (n := 1) hsubtype, uint_beEncode (n := 4) has, uint_beEncode (n := 2) hloc,
      Except.map]
  | raw type value =>
    obtain ⟨htype, hclass, hvalue⟩ := h
    simp only [append_assoc, uint_beEncode (n := 1) htype]
    split
    · omega
    · omega
    · omega
    · simp [slice_append_of_le, slice_append_left hvalue, Except.map]

/-- The unicast and the VPN families. -/
def FamilyOk (afi safi : Nat) : Prop := (afi = 1 ∨ afi = 2) ∧ (safi = 1 ∨ safi = 128)

/-- The values of an attribute fit their fields. -/
def ValueFits : AttrValue → Prop
  | .origin value => value < 256
  | .asPath value => ∀ segment ∈ value, SegmentFits 2 segment
  | .nextHop value | .originatorId value => value.length = 4
  | .multiExitDisc value | .localPref value => value < 0x100000000
  | .atomicAggregate => True
  | .aggregator asNumber addr => asNumber < 0x10000 ∧ addr.length = 4
  | .communities communities => ∀ comm ∈ communities, comm < 0x100000000
  | .clusterList value => ∀ clusterId ∈ value, clusterId.length = 4
  | .mpReachNlri afi safi nextHop nlri => FamilyOk afi safi ∧
    nextHop.length = (if afi = 1 then 4 else 16) ∧ ∀ n ∈ nlri, NlriFits (getAddrClass afi safi) n
  | .mpUnreachNlri afi safi withdrawnRoutes => FamilyOk afi safi ∧
    ∀ n ∈ withdrawnRoutes, NlriFits (getAddrClass afi safi) n
  | .extendedCommunities communities => ∀ comm ∈ communities, ExtendedCommunityFits comm
  | .as4Path value => ∀ segment ∈ value, SegmentFits 4 segment
  | .as4Aggregator asNumber addr => asNumber < 0x100000000 ∧ addr.length = 4
  | .unknown type _ => type < 256 ∧ type ∉ [1, 2, 3, 4, 5, 6, 7, 8, 9, 10, 14, 15, 16, 17, 18]

/-- The next hop as it is packed. -/
def nextHopBin (safi : Nat) (nextHop : Bytes) : Bytes :=
  if safi = 128 then zeros 8 ++ nextHop else nextHop

def valueBin : AttrValue → Bytes
  | .origin value => beEncode 1 value
  | .asPath value => (value.map (segmentBin 2)).flatten
  | .nextHop value | .originatorId value => value
  | .multiExitDisc value | .localPref value => beEncode 4 value
  | .atomicAggregate => []
  | .aggregator asNumber addr => beEncode 2 asNumber ++ addr
  | .communities communities => (communities.map (beEncode 4)).flatten
  | .clusterList value => value.flatten
  | .mpReachNlri afi safi nextHop nlri =>
    beEncode 2 afi ++ (beEncode 1 safi ++ (beEncode 1 (nextHopBin safi nextHop).length ++
      (nextHopBin safi nextHop ++ (0 :: (nlri.map nlriBin).flatten))))
  | .mpUnreachNlri afi safi withdrawnRoutes =>
    beEncode 2 afi ++ (beEncode 1 safi ++ (withdrawnRoutes.map nlriBin).flatten)
  | .extendedCommunities communities => (communities.map extendedCommunityBin).flatten
  | .as4Path value => (value.map (segmentBin 4)).flatten
  | .as4Aggregator asNumber addr => beEncode 4 asNumber ++ addr
  | .unknown _ value => value

def prefixesOf : AttrValue → List Nlri
  | .mpReachNlri _ _ _ nlri => nlri
  | .mpUnreachNlri _ _ withdrawnRoutes => withdrawnRoutes
  | _ => []

variable {afi safi : Nat}

theorem FamilyOk.mem_vpn_iff (h : FamilyOk afi safi) :
    (⟨afi, safi⟩ : RouteFamily) ∈ [rfIPv4VPN, rfIPv6VPN] ↔ safi = 128 := by
  obtain ⟨rfl | rfl, rfl | rfl⟩ := h <;> decide

theorem FamilyOk.lt (h : FamilyOk afi safi) : afi < 65536 ∧ safi < 256 := by
  obtain ⟨rfl | rfl, rfl | rfl⟩ := h <;> decide

theorem length_nextHopBin_lt {afi safi : Nat} {nextHop : Bytes}
    (h : nextHop.length = if afi = 1 then 4 else 16) : (nextHopBin safi nextHop).length < 256 := by
  unfold nextHopBin
  split <;> simp only [length_append, length_zeros, h] <;> split <;> decide

variable {nextHop : Bytes} {nlri : List Nlri}

theorem writesTo_mpReach (h : ValueFits (.mpReachNlri afi safi nextHop nlri)) :
    WritesTo (serializeMpReach afi safi nextHop nlri)
      (valueBin (.mpReachNlri afi safi nextHop nlri)) (∀ n ∈ nlri, NlriRecoverable n) := by
  obtain ⟨hfamily, hnextHop, hnlri⟩ := h
  have hbin : (if (⟨afi, safi⟩ : RouteFamily) ∈ [rfIPv4VPN, rfIPv6VPN] then zeros 8 ++ nextHop
      else nextHop) = nextHopBin safi nextHop := if_congr hfamily.mem_vpn_iff rfl rfl
  have hpack : pack [H, B, B] [.int afi, .int safi, .int (nextHopBin safi nextHop).length] =
      .ok (beEncode 2 afi ++ (beEncode 1 safi ++ beEncode 1 (nextHopBin safi nextHop).length)) := by
    simp [pack, fits, encode, hfamily.lt, length_nextHopBin_lt hnextHop]
  have hall := WritesTo.serializeAll fun n hn => (hnlri n hn).writesTo
  simp only [serializeMpReach, hbin, hpack]
  exact hall.bind_pure fun _ => by simp [valueBin]

theorem writesTo_mpUnreach (h : ValueFits (.mpUnreachNlri afi safi routes)) :
    WritesTo (serializeMpUnreach afi safi routes) (valueBin (.mpUnreachNlri afi safi routes))
      (∀ n ∈ routes, NlriRecoverable n) := by
  obtain ⟨hfamily, hroutes⟩ := h
  have hpack : pack [H, B] [.int afi, .int safi] = .ok (beEncode 2 afi ++ beEncode 1 safi) := by
    simp [pack, fits, encode, hfamily.lt]
  have hall := WritesTo.serializeAll fun n hn => (hroutes n hn).writesTo
  simp only [serializeMpUnreach, hpack]
  exact hall.bind_pure fun _ => by simp [valueBin]

variable {value : AttrValue}

/-- A value that stays as it is. -/
theorem writesTo_plain {x : PyResult Bytes} (hx : x = .ok bin) : WritesTo (plain value x) bin ok :=
  .of_eq (a := value) (by rw [plain, hx]; rfl)

theorem ValueFits.writesTo (h : ValueFits value) :
    WritesTo (serializeValue value) (valueBin value)
      (∀ n ∈ prefixesOf value, NlriRecoverable n) := by
  cases value with
  | origin value => exact writesTo_plain (by simp_all [ValueFits, pack, fits, encode, valueBin])
  | asPath value => exact writesTo_plain (serializeAsPath_eq h)
  | nextHop | originatorId | aggregator | as4Aggregator =>
    exact writesTo_plain
      (by simp_all [ValueFits, pack, fits, encode, valueBin, take_of_length_le])
  | multiExitDisc value | localPref value =>
    exact writesTo_plain (by simp_all [ValueFits, pack, fits, encode, valueBin])
  | atomicAggregate => exact writesTo_plain rfl
  | communities communities =>
    refine writesTo_plain ?_
    rw [mapM_eq_map fun comm hcomm => show pack [I] [.int comm] = .ok (beEncode 4 comm) by
      simp [pack, fits, encode, h comm hcomm]]
    rfl
  | clusterList value =>
    refine writesTo_plain ?_
    rw [mapM_eq_map fun clusterId hid => show pack [s 4] [.bytes clusterId] = .ok (id clusterId) by
      simp [pack, fits, encode, h clusterId hid, take_of_length_le], map_id]
    rfl
  | mpReachNlri afi safi nextHop nlri => exact writesTo_mpReach h
  | mpUnreachNlri afi safi withdrawnRoutes => exact writesTo_mpUnreach h
  | extendedCommunities communities =>
    refine writesTo_plain ?_
    rw [mapM_eq_map fun comm hcomm => (h comm hcomm).serialize_eq]
    rfl
  | as4Path value => exact writesTo_plain (serializeAsPath_eq h)
  | unknown type value => exact writesTo_plain rfl

theorem nextHopOfBin_nextHopBin (hfamily : FamilyOk afi safi)
    (h : nextHop.length = if afi = 1 then 4 else 16) :
    nextHopOfBin afi safi (nextHopBin safi nextHop).length (nextHopBin safi nextHop) =
      .ok nextHop := by
  obtain ⟨rfl | rfl, rfl | rfl⟩ := hfamily <;>
    simp_all [nextHopOfBin, nextHopBin, addrOfBin]

theorem parseMpReach_valueBin_iff (h : ValueFits (.mpReachNlri afi safi nextHop nlri)) :
    parseMpReach (valueBin (.mpReachNlri afi safi nextHop nlri)) =
      .ok (.mpReachNlri afi safi nextHop nlri) ↔ ∀ n ∈ nlri, NlriRecoverable n := by
  obtain ⟨hfamily, hnextHop, hnlri⟩ := h
  have hlen := @length_nextHopBin_lt afi safi nextHop hnextHop
  have hinj : Function.Injective (AttrValue.mpReachNlri afi safi nextHop) :=
    fun _ _ heq => (AttrValue.mpReachNlri.inj heq).2.2.2
  rw [← parseNlris_eq_ok_iff hnlri, ← bind_pure_iff hinj, valueBin]
  generalize (nlri.map nlriBin).flatten = routes
  have hhop := nextHopOfBin_nextHopBin hfamily hnextHop
  set bin := nextHopBin safi nextHop
  set buf := beEncode 2 afi ++ (beEncode 1 safi ++ (beEncode 1 bin.length ++ (bin ++ 0 :: routes)))
    with hbuf
  have hafi : uint buf 0 2 = afi := uint_beEncode (n := 2) hfamily.lt.1 _
  have hsafi : uint buf 2 3 = safi := by
    simp [hbuf, uint_append_of_le, uint_beEncode (n := 1) hfamily.lt.2]
  have hhoplen : uint buf 3 4 = bin.length := by
    simp [hbuf, uint_append_of_le, uint_beEncode (n := 1) hlen]
  have hdrop : buf.drop 4 = bin ++ 0 :: routes := by
    rw [hbuf, ← append_assoc, ← append_assoc, drop_left' (by simp)]
  have hfour : ¬buf.length < 4 := by simp [hbuf]; omega
  simp only [parseMpReach, if_neg hfour, hafi, hsafi, hhoplen, hdrop, take_left, drop_left, hhop]
  rfl

theorem parseMpUnreach_valueBin_iff (h : ValueFits (.mpUnreachNlri afi safi routes)) :
    parseMpUnreach (valueBin (.mpUnreachNlri afi safi routes)) =
      .ok (.mpUnreachNlri afi safi routes) ↔ ∀ n ∈ routes, NlriRecoverable n := by
  obtain ⟨hfamily, hroutes⟩ := h
  have hinj : Function.Injective (AttrValue.mpUnreachNlri afi safi) :=
    fun _ _ heq => (AttrValue.mpUnreachNlri.inj heq).2.2
  rw [← parseNlris_eq_ok_iff hroutes, ← bind_pure_iff hinj, valueBin]
  generalize (routes.map nlriBin).flatten = binroutes
  set buf := beEncode 2 afi ++ (beEncode 1 safi ++ binroutes) with hbuf
  have hafi : uint buf 0 2 = afi := uint_beEncode (n := 2) hfamily.lt.1 _
  have hsafi : uint buf 2 3 = safi := by
    simp [hbuf, uint_append_of_le, uint_beEncode (n := 1) hfamily.lt.2]
  have hdrop : buf.drop 3 = binroutes := by
    rw [hbuf, ← append_assoc, drop_left' (by simp)]
  have hthree : ¬buf.length < 3 := by simp [hbuf]; omega
  simp only [parseMpUnreach, if_neg hthree, hafi, hsafi, hdrop]

/-- Attributes without prefixes lose nothing. -/
theorem ValueFits.parseAttrValue_plain (h : ValueFits value)
    (hreach : ∀ afi safi nextHop nlri, value ≠ .mpReachNlri afi safi nextHop nlri)
    (hunreach : ∀ afi safi routes, value ≠ .mpUnreachNlri afi safi routes) :
    parseAttrValue (attrType value) (valueBin value) = .ok value := by
  unfold parseAttrValue attrType valueBin
  cases value with
  | mpReachNlri afi safi nextHop nlri => exact absurd rfl (hreach _ _ _ _)
  | mpUnreachNlri afi safi withdrawnRoutes => exact absurd rfl (hunreach _ _ _)
  | origin value => simp [parseFormat, uint_beEncode_self (n := 1) h]
  | asPath value => simp [parseAsPath_flatten h]
  | nextHop value | originatorId value =>
    have hlen : value.length = 4 := h
    simp [parseFormat, hlen, slice, take_of_length_le]
  | multiExitDisc value | localPref value =>
    simp [parseFormat, uint_beEncode_self (n := 4) h]
  | atomicAggregate => rfl
  | aggregator asNumber addr =>
    simp [parseFormat, uint_beEncode (n := 2) h.1, h.2, slice, take_of_length_le]
  | as4Aggregator asNumber addr =>
    simp [parseFormat, uint_beEncode (n := 4) h.1, h.2, slice, take_of_length_le]
  | communities communities =>
    have hfours : fours (communities.map (beEncode 4)).flatten = communities.map (beEncode 4) :=
      fours_flatten (by simp)
    have hdecode : communities.map (beDecode ∘ beEncode 4) = communities.map id := by
      refine map_congr_left fun comm hcomm => ?_
      have hlt : comm < 0x100000000 := h comm hcomm
      rw [Function.comp_apply, beDecode_beEncode 4 comm (by omega)]
      rfl
    simp [hfours, hdecode]
  | clusterList value => simp [fours_flatten h]
  | extendedCommunities communities =>
    have hall := parseAll_flatten fun comm hcomm => (h comm hcomm).takesFrame
    have hmap := @mapM_eq_map _ _ (fun comm => .ok comm) id communities fun _ _ => rfl
    simp [hall, hmap]
  | as4Path value => simp [parseAsSegments_flatten h]
  | unknown type value =>
    obtain ⟨-, htype⟩ := h
    split <;> simp_all

theorem ValueFits.parseAttrValue_iff (h : ValueFits value) :
    parseAttrValue (attrType value) (valueBin value) = .ok value ↔
      ∀ n ∈ prefixesOf value, NlriRecoverable n := by
  cases value with
  | mpReachNlri afi safi nextHop nlri => exact parseMpReach_valueBin_iff h
  | mpUnreachNlri afi safi withdrawnRoutes => exact parseMpUnreach_valueBin_iff h
  | _ => exact iff_of_true (h.parseAttrValue_plain (by simp) (by simp)) (by simp [prefixesOf])

/-! ## Attributes -/

/-- An attribute of its own type, with flags and a value that fit. -/
structure AttrFits (attr : PathAttribute) : Prop where
  flags_lt : attr.flags < 256
  type_eq : attr.type = attrType attr.value
  value : ValueFits attr.value

theorem ValueFits.attrType_lt (h : ValueFits value) : attrType value < 256 := by
  cases value with
  | unknown type value => exact h.1
  | _ => simp [attrType]

variable {flags : Nat}

theorem clearBits_lt (h : flags < 256) (mask : Nat) : clearBits flags mask < 256 :=
  Nat.xor_lt_two_pow (n := 8) h (lt_of_le_of_lt Nat.and_le_left h)

theorem or_lt {a b : Nat} (ha : a < 256) (hb : b < 256) : a ||| b < 256 :=
  Nat.or_lt_two_pow (n := 8) ha hb

theorem attrFlags_lt {classFlags : Nat} (h : attrFlags value = some classFlags) :
    classFlags < 256 := by
  cases value <;> simp only [attrFlags, Option.some.injEq, reduceCtorEq] at h <;> subst h <;> decide

theorem fixFlags_lt (h : flags < 256) (length : Nat) (value : AttrValue) :
    fixFlags flags length value < 256 := by
  unfold fixFlags
  cases hclass : attrFlags value with
  | none =>
    dsimp only
    split
    · exact or_lt h (by decide)
    · exact clearBits_lt h _
  | some classFlags =>
    have hflags := or_lt (clearBits_lt h (attrFlagOptional ||| attrFlagTransitive))
      (attrFlags_lt hclass)
    dsimp only
    split
    · exact or_lt hflags (by decide)
    · exact clearBits_lt hflags _

/-- The flag says how wide the length is. -/
theorem lenSize_fixFlags (flags length : Nat) (value : AttrValue) :
    lenSize (fixFlags flags length value) = if length > 255 then 2 else 1 := by
  have hset : ∀ f, (f ||| attrFlagExtendedLength) &&& 0x10 ≠ 0 := by
    intro f
    rw [Nat.and_or_distrib_right, ne_eq, Nat.or_eq_zero_iff]
    exact fun h => absurd h.2 (by decide)
  have hclear : ∀ f, clearBits f attrFlagExtendedLength &&& 0x10 = 0 := by
    intro f
    rw [clearBits, Nat.and_xor_distrib_right, Nat.and_assoc]
    exact Nat.xor_self _
  unfold fixFlags lenSize
  dsimp only
  split
  · simp [hset]
  · simp [hclear]

def attrBin (attr : PathAttribute) : Bytes :=
  let length := (valueBin attr.value).length
  beEncode 1 (fixFlags attr.flags length attr.value) ++ (beEncode 1 attr.type ++
    (beEncode (if length > 255 then 2 else 1) length ++ valueBin attr.value))

section Attributes

variable {attr : PathAttribute}

theorem length_fits {length : Nat} (h : length < 65536) :
    length < 256 ^ (if length > 255 then 2 else 1) := by
  split <;> omega

theorem AttrFits.type_lt (h : AttrFits attr) : attr.type < 256 := by
  rw [h.type_eq]
  exact h.value.attrType_lt

theorem AttrFits.takesFrame (h : AttrFits attr) (hlen : (valueBin attr.value).length < 65536) :
    TakesFrame parsePathAttribute (attrBin attr)
      ((parseAttrValue attr.type (valueBin attr.value)).map fun value =>
        ⟨fixFlags attr.flags (valueBin attr.value).length attr.value, attr.type,
          (valueBin attr.value).length, value⟩) := by
  refine ⟨by simp [attrBin, beEncode], fun rest => ?_⟩
  have hflagslt := fixFlags_lt h.flags_lt (valueBin attr.value).length attr.value
  have htypelt := h.type_lt
  have hsize := lenSize_fixFlags attr.flags (valueBin attr.value).length attr.value
  have hfits := length_fits hlen
  rw [attrBin]
  set value := valueBin attr.value
  set flags := fixFlags attr.flags value.length attr.value
  set size := if value.length > 255 then 2 else 1
  simp only [append_assoc]
  set buf := beEncode 1 flags ++ (beEncode 1 attr.type ++ (beEncode size value.length ++
    (value ++ rest))) with hbuf
  have hflags : uint buf 0 1 = flags := uint_beEncode (n := 1) hflagslt _
  have htype : uint buf 1 2 = attr.type := by
    simp [hbuf, uint_append_of_le, uint_beEncode (n := 1) htypelt]
  have hlength : uint buf 2 (2 + size) = value.length := by
    rw [hbuf, uint_append_of_le (by simp), uint_append_of_le (by simp)]
    simpa using uint_beEncode hfits _
  have hdrop : buf.drop (2 + size) = value ++ rest := by
    rw [hbuf, ← append_assoc, ← append_assoc, drop_left' (by simp; omega)]
  have htwo : ¬buf.length < 2 := by
    simp only [hbuf, length_append, length_beEncode]
    omega
  have hall : ¬buf.length < 2 + size := by
    simp only [hbuf, length_append, length_beEncode]
    omega
  simp only [parsePathAttribute, if_neg htwo, hflags, hsize, if_neg hall, htype, hlength, hdrop,
    take_left, drop_left]
  cases parseAttrValue attr.type value <;> rfl

theorem AttrFits.writesTo (h : AttrFits attr) (hlen : (valueBin attr.value).length < 65536) :
    WritesTo (serializePathAttribute attr) (attrBin attr)
      (∀ n ∈ prefixesOf attr.value, NlriRecoverable n) := by
  have hflagslt := fixFlags_lt h.flags_lt (valueBin attr.value).length attr.value
  have htypelt := h.type_lt
  have hhead : pack [B, B] [.int (fixFlags attr.flags (valueBin attr.value).length attr.value),
      .int attr.type] =
        .ok (beEncode 1 (fixFlags attr.flags (valueBin attr.value).length attr.value) ++
        beEncode 1 attr.type) := by
    simp [pack, fits, encode, hflagslt, htypelt]
  have hpack : pack [if (valueBin attr.value).length > 255 then H else B]
      [.int (valueBin attr.value).length] =
        .ok (beEncode (if (valueBin attr.value).length > 255 then 2 else 1)
          (valueBin attr.value).length) := by
    have hfits := length_fits hlen
    split <;> simp_all [pack, fits, encode]
  refine h.value.writesTo.bind_pure fun fixed => ?_
  simp [hhead, hpack, attrBin]

end Attributes

/-! ## AS4_PATH -/

/-- The bytes of the segments of an AS4_PATH attribute. -/
def as4PathSize (value : List AsSegment) : Nat :=
  (value.map fun segment => 2 + 4 * segment.numbers.length).sum

theorem length_segmentBin (size : Nat) (segment : AsSegment) :
    (segmentBin size segment).length = 2 + size * segment.numbers.length := by
  have hnumbers : ∀ l : List Nat, (l.map (beEncode size)).flatten.length = size * l.length := by
    intro l
    induction l with
    | nil => simp
    | cons i l ih => simp [ih, Nat.mul_add, Nat.add_comm]
  simp [segmentBin, hnumbers]
  omega

theorem length_as4Path (value : List AsSegment) :
    (valueBin (.as4Path value)).length = as4PathSize value := by
  simp [valueBin, as4PathSize, length_flatten, Function.comp_def, length_segmentBin]

/-- The serializer cannot say the length of an attribute that is longer than 65535 bytes. -/
theorem serializePathAttribute_too_long {attr : PathAttribute} {value : Bytes} {fixed : AttrValue}
    (hvalue : serializeValue attr.value = .ok (value, fixed)) (hlen : 65536 ≤ value.length) :
    ∀ r, serializePathAttribute attr ≠ .ok r := by
  intro r hr
  obtain ⟨⟨bin, fixed'⟩, hbin, hr⟩ := bind_eq_ok.1 hr
  cases hvalue.symm.trans hbin
  obtain ⟨head, -, hr⟩ := bind_eq_ok.1 hr
  obtain ⟨len, hpack, -⟩ := bind_eq_ok.1 hr
  rw [if_pos (by omega)] at hpack
  have hwide : ¬value.length < 65536 := by omega
  simp [pack, fits, hwide] at hpack

/-- A path with numbers of 32 bits comes back, since its class does not try 16 bits first. The
attribute can be serialized when its length can be packed. -/
theorem as4Path_roundTrips (flags length : Nat) (value : List AsSegment) (hflags : flags < 256)
    (h : ∀ segment ∈ value, SegmentFits 4 segment) :
    (∃ bin, serializeAsPath I value = .ok bin ∧ parseAttrValue 17 bin = .ok (.as4Path value)) ∧
    ((∃ buf fixed, serializePathAttribute ⟨flags, 17, length, .as4Path value⟩ = .ok (buf, fixed)) ↔
      as4PathSize value < 65536) ∧
    ∀ buf fixed rest,
      serializePathAttribute ⟨flags, 17, length, .as4Path value⟩ = .ok (buf, fixed) →
      ∃ attr, parsePathAttribute (buf ++ rest) = .ok (attr, rest) ∧
        attr.value = .as4Path value := by
  set attr : PathAttribute := ⟨flags, 17, length, .as4Path value⟩ with hattr
  have hfits : AttrFits attr := ⟨hflags, rfl, h⟩
  have hparse : parseAttrValue attr.type (valueBin attr.value) = .ok attr.value :=
    hfits.value.parseAttrValue_plain (by simp [hattr]) (by simp [hattr])
  have hser : serializeAsPath I value = .ok (valueBin (.as4Path value)) := serializeAsPath_eq h
  have hshort : (∃ buf fixed, serializePathAttribute attr = .ok (buf, fixed)) →
      (valueBin attr.value).length < 65536 := by
    rintro ⟨buf, fixed, hok⟩
    by_contra hlong
    have hvalue : serializeValue attr.value = .ok (valueBin attr.value, attr.value) := by
      simp [hattr, serializeValue, plain, hser]
    exact serializePathAttribute_too_long hvalue (by omega) _ hok
  refine ⟨⟨_, hser, hparse⟩, ⟨fun hok => ?_, fun hlen => ?_⟩, fun buf fixed rest hok => ?_⟩
  · rw [← length_as4Path]
    exact hshort hok
  · rw [← length_as4Path] at hlen
    obtain ⟨fixed, hok⟩ := (hfits.writesTo hlen).ends (by simp [hattr, prefixesOf])
    exact ⟨_, fixed, hok⟩
  · have hlen := hshort ⟨buf, fixed, hok⟩
    obtain rfl := (hfits.writesTo hlen).eq_bin hok
    have hframe := (hfits.takesFrame hlen).item_append rest
    rw [hparse] at hframe
    exact ⟨_, hframe, rfl⟩

/-- The bytes of this path could be read with 16 bits, too. -/
theorem as4Path_roundTrips_ambiguous :
    isValid16bitAsPath 6 [2, 1, 0, 0, 1, 0] = .ok true ∧
    (∃ bin, serializeAsPath I [.asSequence [256]] = .ok bin ∧
      parseAttrValue 17 bin = .ok (.as4Path [.asSequence [256]])) ∧
    ∃ buf fixed, serializePathAttribute ⟨0, 17, 0, .as4Path [.asSequence [256]]⟩ =
      .ok (buf, fixed) := by
  have hall := as4Path_roundTrips 0 0 [.asSequence [256]] (by decide)
    (by simp [SegmentFits, AsSegment.numbers])
  exact ⟨by decide, hall.1, hall.2.1.2 (by decide)⟩

/-! ## Messages -/

/-- What stands on the wire behind the header. -/
def tailBin (msg : BgpUpdate) : Bytes :=
  let routes := (msg.withdrawnRoutes.map nlriBin).flatten
  let attrs := (msg.pathAttributes.map attrBin).flatten
  beEncode 2 routes.length ++ (routes ++ (beEncode 2 attrs.length ++ (attrs ++
    (msg.nlri.map nlriBin).flatten)))

/-- An UPDATE message with IPv4 prefixes without host bits and with attributes that fit, in 65535
bytes. -/
structure UpdateFits (msg : BgpUpdate) : Prop where
  withdrawnRoutes : ∀ n ∈ msg.withdrawnRoutes, NlriFits .ip n ∧ NlriRecoverable n
  pathAttributes : ∀ attr ∈ msg.pathAttributes, AttrFits attr
  nlri : ∀ n ∈ msg.nlri, NlriFits .ip n ∧ NlriRecoverable n
  size : 19 + (tailBin msg).length ≤ 65535

/-- The message comes back: the same routes and attributes, and the bytes behind it are left over.
-/
def RoundTrips (msg : BgpUpdate) : Prop :=
  ∃ buf fixed, serializeUpdate msg = .ok (buf, fixed) ∧ ∀ rest, ∃ msg' : BgpUpdate,
    BgpMessage.parser parseBody (buf ++ rest) =
      .ok (⟨buf.length, bgpMsgUpdate, .update msg'⟩, rest) ∧
    msg'.withdrawnRoutes = msg.withdrawnRoutes ∧
    msg'.pathAttributes.map PathAttribute.value = msg.pathAttributes.map PathAttribute.value ∧
    msg'.nlri = msg.nlri

section Messages

variable {msg : BgpUpdate}

theorem length_le_flatten {α : Type} {bin : α → Bytes} {x : α} {xs : List α} (h : x ∈ xs) :
    (bin x).length ≤ (xs.map bin).flatten.length :=
  (sublist_flatten_of_mem (mem_map_of_mem h)).length_le

theorem UpdateFits.value_lt (h : UpdateFits msg) {attr : PathAttribute}
    (hattr : attr ∈ msg.pathAttributes) : (valueBin attr.value).length < 65536 := by
  have hsize := h.size
  have hle := @length_le_flatten _ attrBin _ _ hattr
  have hvalue : (valueBin attr.value).length ≤ (attrBin attr).length := by
    simp [attrBin]
    omega
  simp only [tailBin, length_append] at hsize
  omega

theorem UpdateFits.parseAttributes_iff (h : UpdateFits msg) :
    (∃ attrs, parseAll parsePathAttribute (msg.pathAttributes.map attrBin).flatten = .ok attrs ∧
      attrs.map PathAttribute.value = msg.pathAttributes.map PathAttribute.value) ↔
      ∀ attr ∈ msg.pathAttributes, ∀ n ∈ prefixesOf attr.value, NlriRecoverable n := by
  rw [parseAll_flatten fun attr hattr =>
    (h.pathAttributes attr hattr).takesFrame (h.value_lt hattr), exists_mapM_iff]
  refine forall₂_congr fun attr hattr => ?_
  have hfits := h.pathAttributes attr hattr
  rw [hfits.type_eq, ← hfits.value.parseAttrValue_iff]
  cases parseAttrValue (attrType attr.value) (valueBin attr.value) <;> simp [Except.map]

theorem UpdateFits.parseUpdate_eq (h : UpdateFits msg) :
    parseUpdate (tailBin msg) =
      (parseAll parsePathAttribute (msg.pathAttributes.map attrBin).flatten).map fun attrs =>
        ⟨(msg.withdrawnRoutes.map nlriBin).flatten.length, msg.withdrawnRoutes,
          (msg.pathAttributes.map attrBin).flatten.length, attrs, msg.nlri⟩ := by
  have hroutes := (parseNlris_eq_ok_iff fun n hn => (h.withdrawnRoutes n hn).1).2
    fun n hn => (h.withdrawnRoutes n hn).2
  have hnlri := (parseNlris_eq_ok_iff fun n hn => (h.nlri n hn).1).2 fun n hn => (h.nlri n hn).2
  have hsize := h.size
  rw [tailBin] at hsize ⊢
  set routes := (msg.withdrawnRoutes.map nlriBin).flatten
  set attrs := (msg.pathAttributes.map attrBin).flatten
  set nlri := (msg.nlri.map nlriBin).flatten
  set buf := beEncode 2 routes.length ++ (routes ++ (beEncode 2 attrs.length ++ (attrs ++ nlri)))
    with hbuf
  have hlen : buf.length = 2 + routes.length + 2 + attrs.length + nlri.length := by
    simp [hbuf]
    omega
  have hroutesLen : uint buf 0 2 = routes.length := uint_beEncode (n := 2) (by omega) _
  have hattrsLen : uint buf (2 + routes.length) (2 + routes.length + 2) = attrs.length := by
    rw [hbuf, uint_append_of_le (by simp), uint_append_of_le (by simp)]
    have hcount := @uint_beEncode 2 attrs.length (by omega) (attrs ++ nlri)
    simpa [Nat.add_sub_cancel_left, show 2 + routes.length + 2 - 2 - routes.length = 2 by omega]
      using hcount
  have hfront : buf.drop 2 = routes ++ (beEncode 2 attrs.length ++ (attrs ++ nlri)) :=
    drop_left' rfl
  have hmiddle : buf.drop (2 + routes.length + 2) = attrs ++ nlri := by
    rw [hbuf, ← append_assoc, ← append_assoc, drop_left' (by simp; omega)]
  have hback : buf.drop (2 + routes.length + 2 + attrs.length) = nlri := by
    rw [← drop_drop, hmiddle, drop_left]
  simp only [parseUpdate, if_neg (show ¬buf.length < 2 by omega), hroutesLen,
    if_neg (show ¬buf.length < 2 + routes.length + 2 by omega), hattrsLen, hfront, hmiddle, hback,
    take_left, hroutes, hnlri]
  cases parseAll parsePathAttribute attrs <;> rfl

/-- The header, as it is packed. -/
def headerBin (length : Nat) : Bytes :=
  Speaker.messageMarker ++ (beEncode 2 length ++ beEncode 1 bgpMsgUpdate)

theorem length_headerBin (length : Nat) : (headerBin length).length = 19 := by
  simp [headerBin, Speaker.messageMarker]

theorem parseMsgHeader_headerBin {length : Nat} (h : length ≤ 65535) :
    parseMsgHeader (headerBin length) = ⟨Speaker.messageMarker, length, bgpMsgUpdate⟩ := by
  have hmarker : Speaker.messageMarker.length = 16 := rfl
  have hlength : uint (headerBin length) 16 18 = length := by
    exact @uint_beEncode 2 length (by omega) _
  have htype : uint (headerBin length) 18 19 = bgpMsgUpdate := by
    rfl
  have htake : (headerBin length).take 16 = Speaker.messageMarker := take_left' hmarker
  rw [parseMsgHeader, htake, ← uint, ← uint, hlength, htype]

theorem UpdateFits.parser_eq (h : UpdateFits msg) (rest : Bytes) :
    BgpMessage.parser parseBody (headerBin (19 + (tailBin msg).length) ++ tailBin msg ++ rest) =
      match parseUpdate (tailBin msg) with
      | .error e => .error (.pyErr e)
      | .ok msg' => .ok (⟨19 + (tailBin msg).length, bgpMsgUpdate, .update msg'⟩, rest) := by
  set tail := tailBin msg with htail
  set len := 19 + tail.length with hlen
  have hheader := length_headerBin len
  set buf := headerBin len ++ tail ++ rest with hbuf
  have htake : buf.take 19 = headerBin len := by
    rw [hbuf, append_assoc, take_left' hheader]
  have hbody : slice buf 19 len = tail := by
    rw [slice, hbuf, append_assoc, drop_left' hheader, take_left' (by omega)]
  have hrest : buf.drop len = rest := by
    rw [hbuf, drop_left' (by rw [length_append]; omega)]
  have hbuflen : buf.length = len + rest.length := by
    rw [hbuf, length_append, length_append]
    omega
  have hparse := parseMsgHeader_headerBin (show len ≤ 65535 from h.size)
  simp only [BgpMessage.parser, htake, hparse, hbody, hrest,
    if_neg (show ¬(buf.length < 19 ∨ buf.length < len) by omega)]
  cases hupdate : parseUpdate tail with
  | error e => simp [parseBody, hupdate, bgpMsgUpdate]
  | ok msg' => simp [parseBody, hupdate, bgpMsgUpdate]

theorem pack_H_eq {v : Nat} (h : v < 65536) : pack [H] [.int v] = .ok (beEncode 2 v) := by
  simp [pack, fits, encode, h]

theorem UpdateFits.writesTo_tail (h : UpdateFits msg) :
    WritesTo (serializeTail msg) (tailBin msg)
      (∀ attr ∈ msg.pathAttributes, ∀ n ∈ prefixesOf attr.value, NlriRecoverable n) := by
  have hroutes := WritesTo.serializeAll fun n hn => (h.withdrawnRoutes n hn).1.writesTo
  have hattrs := WritesTo.serializeAll fun attr hattr =>
    (h.pathAttributes attr hattr).writesTo (h.value_lt hattr)
  have hnlri := WritesTo.serializeAll fun n hn => (h.nlri n hn).1.writesTo
  have hsize := h.size
  simp only [tailBin, length_append] at hsize
  refine (hroutes.bind fun routes => hattrs.bind fun attrs => hnlri.bind_pure fun nlri => ?_).imp
    fun hok => ⟨fun n hn => (h.withdrawnRoutes n hn).2, hok, fun n hn => (h.nlri n hn).2⟩
  simp only [pack_H_eq (show (msg.withdrawnRoutes.map nlriBin).flatten.length < 65536 by omega),
    pack_H_eq (show (msg.pathAttributes.map attrBin).flatten.length < 65536 by omega), ok_bind]
  simp [tailBin]

theorem UpdateFits.writesTo (h : UpdateFits msg) :
    WritesTo (serializeUpdate msg) (headerBin (19 + (tailBin msg).length) ++ tailBin msg)
      (∀ attr ∈ msg.pathAttributes, ∀ n ∈ prefixesOf attr.value, NlriRecoverable n) := by
  have hpack : pack [s 16, H, B] [.bytes Speaker.messageMarker, .int (19 + (tailBin msg).length),
      .int bgpMsgUpdate] = .ok (headerBin (19 + (tailBin msg).length)) := by
    have hlt : 19 + (tailBin msg).length < 65536 := Nat.lt_succ_of_le h.size
    simp [pack, fits, encode, hlt, bgpMsgUpdate, headerBin, Speaker.messageMarker]
  refine h.writesTo_tail.bind_pure fun fixed => ?_
  simp [hpack]

/-- A message comes back as it was if that holds of the prefixes of its attributes. -/
theorem roundTrips_iff (h : UpdateFits msg) :
    RoundTrips msg ↔
      ∀ attr ∈ msg.pathAttributes, ∀ n ∈ prefixesOf attr.value, NlriRecoverable n := by
  have hlen : (headerBin (19 + (tailBin msg).length) ++ tailBin msg).length =
      19 + (tailBin msg).length := by
    rw [length_append, length_headerBin]
  rw [← h.parseAttributes_iff]
  constructor
  · rintro ⟨buf, fixed, hser, hparse⟩
    obtain rfl := h.writesTo.eq_bin hser
    obtain ⟨msg', hmsg', -, hvalues, -⟩ := hparse []
    rw [h.parser_eq, h.parseUpdate_eq] at hmsg'
    cases hattrs : parseAll parsePathAttribute (msg.pathAttributes.map attrBin).flatten with
    | error e => simp [hattrs, Except.map] at hmsg'
    | ok attrs =>
      rw [hattrs] at hmsg'
      simp only [Except.map, Except.ok.injEq, Prod.mk.injEq, BgpMessage.mk.injEq,
        Body.update.injEq] at hmsg'
      obtain ⟨⟨-, -, rfl⟩, -⟩ := hmsg'
      exact ⟨attrs, rfl, hvalues⟩
  · rintro ⟨attrs, hattrs, hvalues⟩
    obtain ⟨fixed, hser⟩ := h.writesTo.ends (h.parseAttributes_iff.1 ⟨attrs, hattrs, hvalues⟩)
    refine ⟨_, fixed, hser, fun rest => ?_⟩
    rw [h.parser_eq, h.parseUpdate_eq, hattrs, hlen]
    exact ⟨_, rfl, rfl, hvalues, rfl⟩

end Messages

/-- The routes of a VPN, with a label and without one, and attributes of other kinds. -/
def vpnUpdate : BgpUpdate where
  withdrawnRoutesLen := 0
  withdrawnRoutes := [.ip 9 [10, 128, 0, 0]]
  totalPathAttributeLen := 0
  pathAttributes :=
    [⟨0, 1, 0, .origin 0⟩, ⟨0, 2, 0, .asPath [.asSequence [65000, 65001], .asSet [7]]⟩,
    ⟨0, 14, 0, .mpReachNlri 1 128 [192, 0, 2, 1]
      [.vpnIp 112 [20] (.twoOctetAs 65000 1) [10, 0, 1, 0]]⟩,
    ⟨0, 15, 0, .mpUnreachNlri 1 128 [.vpnIp 88 [] (.twoOctetAs 100 1) [10, 0, 2, 0]]⟩]
  nlri := [.ip 0 [0, 0, 0, 0]]

theorem roundTrips_vpnUpdate : UpdateFits vpnUpdate ∧ RoundTrips vpnUpdate := by
  have hfits : UpdateFits vpnUpdate := by
    refine ⟨?_, ?_, ?_, by decide +kernel⟩
    · simp only [vpnUpdate, mem_singleton, forall_eq, NlriFits, NlriRecoverable, NoHostBits]
      decide
    · simp only [vpnUpdate, forall_mem_cons, not_mem_nil, false_imp_iff, implies_true, and_true]
      refine ⟨⟨by decide, rfl, by simp [ValueFits]⟩, ⟨by decide, rfl, ?_⟩, ⟨by decide, rfl, ?_⟩,
        by decide, rfl, ?_⟩
      · simp [ValueFits, SegmentFits, AsSegment.numbers]
      all_goals
        simp [ValueFits, FamilyOk, NlriFits, getAddrClass]
        exact ⟨rfl, by simp, by simp [RouteDistOk], by simp, by simp, by simp⟩
    · simp only [vpnUpdate, mem_singleton, forall_eq, NlriFits, NlriRecoverable, NoHostBits]
      decide
  refine ⟨hfits, (roundTrips_iff hfits).2 ?_⟩
  simp only [vpnUpdate, forall_mem_cons, not_mem_nil, false_imp_iff, implies_true,
    and_true, prefixesOf, NlriRecoverable, NoHostBits, LabelsReadable, true_and]
  decide +kernel

/-- A route without a label in a VPN of the AS 65000. -/
def unlabelledUpdate : BgpUpdate where
  withdrawnRoutesLen := 0
  withdrawnRoutes := []
  totalPathAttributeLen := 0
  pathAttributes :=
    [⟨0, 15, 0, .mpUnreachNlri 1 128 [.vpnIp 88 [] (.twoOctetAs 65000 1) [10, 0, 1, 0]]⟩]
  nlri := []

theorem not_roundTrips_unlabelledUpdate :
    UpdateFits unlabelledUpdate ∧ serializeUpdate unlabelledUpdate = .error .attributeError ∧
      ¬RoundTrips unlabelledUpdate := by
  have herror : serializeUpdate unlabelledUpdate = .error .attributeError := by decide +kernel
  refine ⟨⟨by simp [unlabelledUpdate], ?_, by simp [unlabelledUpdate], by decide +kernel⟩,
    herror, ?_⟩
  · simp only [unlabelledUpdate, mem_singleton, forall_eq]
    refine ⟨by decide, rfl, ?_⟩
    simp [ValueFits, FamilyOk, NlriFits, getAddrClass]
    exact ⟨rfl, by simp, by simp [RouteDistOk], by simp, by simp, by simp⟩
  · rintro ⟨buf, fixed, hser, -⟩
    cases hser

end BebaCtrl.Bgp.Wire
