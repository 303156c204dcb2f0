import BebaCtrl.Ofproto.Actions

/-!
# Specifications of the learn action

The list of specifications of a learn action has no count: it ends with the data, and a
specification with an all-zero header is padding. A specification comes back from its bytes,
whatever stands behind them, when its number of bits fits ten bits, its header is not zero, its
immediate fits its bytes and its fields are names of the table (`parse_append_iff`). A field that is
only known by its number is written with a header of length zero, which the parser refuses, or is
read back under the name that the table has for the number.

`learn_roundTrip_iff` says when a learn action comes back, padding included.
-/

namespace BebaCtrl

open Struct List Option Py

/-- The keyword is a name of the table and not a number. -/
def OxmName.IsNamed : OxmName → Prop
  | .named _ => True
  | .field _ => False

instance (name : OxmName) : Decidable name.IsNamed := by
  cases name <;> unfold OxmName.IsNamed <;> infer_instance

/-! ## Headers of fields -/

/-- The header that is written for a field: that of a field of the table, under its name or its
number, or one without length for a number that the table does not have. -/
def HeaderOf (field : OxmName) (hdr : Bytes) : Prop :=
  (∃ f ∈ oxmTypes, ∃ size, f.Entry size ∧ hdr = f.header 0 size ∧
    (field = .named f.name ∨ (∃ n, field = .field n) ∧ f.expHdr = [])) ∨
  ∃ n, field = .field n ∧ n <<< 9 < 256 ^ 4 ∧ hdr = beEncode 4 (n <<< 9)

variable {field : OxmName} {len : Nat}

theorem headerOf_of_serialize {num : OxmNum} {data out : Bytes}
    (hnum : oxmFromUserHeader field = .ok num)
    (h : oxmSerializeHeader num data data.length = .ok (out, len)) :
    ∃ hdr, HeaderOf field hdr ∧ out = data ++ hdr := by
  -- a field that the table has for the number
  have hentry : ∀ f ∈ oxmTypes, f.num = num →
      ∃ size, f.Entry size ∧ out = data ++ f.header 0 size := by
    rintro f hf rfl
    obtain ⟨size, he⟩ := entry_of_mem f hf
    rw [oxmSerializeHeader_header he, splice_end] at h
    cases h
    exact ⟨size, he, rfl⟩
  cases field with
  | named name =>
    rw [oxmFromUserHeader, getFieldInfoByName] at hnum
    cases hname : nameToField name with
    | none =>
      rw [hname] at hnum
      cases hnum
    | some f =>
      rw [hname] at hnum
      cases hnum
      have hf : f ∈ oxmTypes := mem_of_find?_eq_some hname
      have hfname : f.name = name := by simpa using find?_some hname
      obtain ⟨size, he, hout⟩ := hentry f hf rfl
      exact ⟨_, .inl ⟨f, hf, size, he, rfl, .inl (by rw [hfname])⟩, hout⟩
  | field n =>
    cases hnum
    cases hn : numToField (.basic n) with
    | some f =>
      have hf : f ∈ oxmTypes := mem_of_find?_eq_some hn
      have hfnum : f.num = .basic n := by simpa using find?_some hn
      obtain ⟨size, he, hout⟩ := hentry f hf hfnum
      exact ⟨_, .inl ⟨f, hf, size, he, rfl, .inr ⟨⟨n, rfl⟩, he.expHdr_eq_nil hfnum⟩⟩, hout⟩
    | none =>
      obtain ⟨hword, rfl⟩ := oxmSerializeHeader_unknown hn h
      exact ⟨_, .inr ⟨n, rfl, hword, rfl⟩, splice_end _ _⟩

/-- A header is read back under the name of the table, or not at all. -/
theorem HeaderOf.parse_append {hdr : Bytes} (h : HeaderOf field hdr) (rest : Bytes) :
    (∃ num name, (∀ s, field = .named s → s = name) ∧
      oxmParseHeader (hdr ++ rest) 0 = .ok (num, hdr.length) ∧
      oxmToUserHeader num = .ok (.named name)) ∨
    (¬field.IsNamed ∧ ∃ e, oxmParseHeader (hdr ++ rest) 0 = .error e) := by
  obtain ⟨f, hf, size, he, rfl, hfield⟩ | ⟨n, rfl, hn, rfl⟩ := h
  · refine .inl ⟨f.num, f.name, ?_, ?_, ?_⟩
    · rintro s rfl
      rcases hfield with hs | ⟨⟨n, hn⟩, -⟩
      · exact OxmName.named.inj hs
      · cases hn
    · rw [oxmParseHeader_header he (at_front _ _), f.length_header]
    · simp [oxmToUserHeader, getFieldInfoByNumber, he.byNum]
  · obtain ⟨e, he⟩ := parseHeaderImpl_unknown hn (at_front _ rest)
    refine .inr ⟨id, e, ?_⟩
    rw [oxmParseHeader, he]
    rfl

variable {bs : Bytes}

namespace NXFlowSpec

/-! ## Subfields -/

variable {ofs : Nat}

section

variable (h : serializeSubfield field ofs = .ok bs)
include h

theorem serializeSubfield_cases :
    ofs < 256 ^ 2 ∧ ∃ hdr, HeaderOf field hdr ∧ hdr.length = 4 ∧ bs = hdr ++ beEncode 2 ofs := by
  obtain ⟨num, hnum, h⟩ := bind_eq_ok.1 h
  obtain ⟨⟨buf, len⟩, hhdr, h⟩ := bind_eq_ok.1 h
  obtain ⟨_, hassert, h⟩ := bind_eq_ok.1 h
  have hlen : buf.length = 4 := of_pyAssert hassert
  obtain ⟨hfit, rfl⟩ := (msgPackInto_end_eq_ok_iff hlen.symm).1 h
  obtain ⟨_, hfield, rfl⟩ := headerOf_of_serialize hnum hhdr
  exact ⟨by simpa [fits] using hfit, buf, hfield, hlen, by simp [encode]⟩

theorem length_serializeSubfield : bs.length = 6 := by
  obtain ⟨-, hdr, -, hlen, rfl⟩ := serializeSubfield_cases h
  simp [hlen]

/-- A subfield is read back if its field is given by a name of the table. -/
theorem parseSubfield_append_iff (rest : Bytes) :
    parseSubfield (bs ++ rest) = .ok (field, ofs) ↔ field.IsNamed := by
  obtain ⟨hofs, hdr, hfield, hlen, rfl⟩ := serializeSubfield_cases h
  rw [append_assoc, parseSubfield]
  rcases hfield.parse_append (beEncode 2 ofs ++ rest) with
    ⟨num, name, hname, hparse, huser⟩ | ⟨hnot, e, herror⟩
  · have hdrop : (hdr ++ (beEncode 2 ofs ++ rest)).drop hdr.length =
        encode [H] [.int ofs] ++ rest := by
      simp [encode]
    have hread : unpackFrom [H] (encode [H] [.int ofs] ++ rest) 0 = .ok [.int ofs] :=
      unpackFrom_at (by simpa [Struct.exact] using hofs) (by decide) (at_front _ _)
    simp only [hparse, pyAssert_pos hlen, huser, hdrop, hread, ok_bind]
    cases field with
    | named s => simp [OxmName.IsNamed, hname s rfl]
    | field n => simp [OxmName.IsNamed]
  · simp [herror, hnot]

end

/-! ## One specification -/

/-- The header word that is written. -/
def hdr (self : NXFlowSpec) : Nat :=
  (self.src.srcType <<< 13) ||| (self.dst.dstType <<< 11) ||| self.nBits

def srcSize (nBits : Nat) : FlowSpecSrc → Nat
  | .subfield _ _ => 6
  | .immediate _ => immediateLen nBits

def dstSize : FlowSpecDst → Nat
  | .matchField _ _ | .load _ _ => 6
  | .output => 0

/-- The number of bytes of a specification. -/
def size (self : NXFlowSpec) : Nat := 2 + (srcSize self.nBits self.src + dstSize self.dst)

theorem srcSize_even (nBits : Nat) (src : FlowSpecSrc) : 2 ∣ srcSize nBits src := by
  cases src with
  | subfield => exact ⟨3, rfl⟩
  | immediate => exact Nat.dvd_mul_left 2 _

theorem size_even (self : NXFlowSpec) : 2 ∣ self.size := by
  have hsrc := srcSize_even self.nBits self.src
  have hdst : 2 ∣ dstSize self.dst := by
    cases self.dst with
    | output => exact ⟨0, rfl⟩
    | _ => exact ⟨3, rfl⟩
  unfold size
  omega

/-- The source comes back: a name of the table, or an immediate that fits its bytes. -/
def SrcBack (nBits : Nat) : FlowSpecSrc → Prop
  | .subfield field _ => field.IsNamed
  | .immediate value => value < 256 ^ immediateLen nBits

def DstBack : FlowSpecDst → Prop
  | .matchField field _ | .load field _ => field.IsNamed
  | .output => True

/-- A specification that comes back from its bytes. -/
structure Back (spec : NXFlowSpec) : Prop where
  nBits_lt : spec.nBits < 1024
  hdr_ne : spec.hdr ≠ 0
  src : SrcBack spec.nBits spec.src
  dst : DstBack spec.dst

theorem srcType_le (src : FlowSpecSrc) : src.srcType ≤ 1 := by
  cases src <;> simp [FlowSpecSrc.srcType]

theorem dstType_le (dst : FlowSpecDst) : dst.dstType ≤ 2 := by
  cases dst <;> simp [FlowSpecDst.dstType]

variable {self : NXFlowSpec}

/-- Source, destination and number of bits are apart in the header. -/
theorem hdr_bits (h : self.nBits < 1024) :
    (self.hdr >>> 13) &&& 1 = self.src.srcType ∧ (self.hdr >>> 11) &&& 3 = self.dst.dstType ∧
      self.hdr &&& 0x3ff = self.nBits := by
  have hsrc := srcType_le self.src
  have hdst := dstType_le self.dst
  have hhigh : self.src.srcType <<< 13 ||| self.dst.dstType <<< 11 =
      (self.src.srcType * 4 + self.dst.dstType) <<< 11 := by
    rw [← Nat.shiftLeft_add_eq_or_of_lt (by omega), Nat.shiftLeft_eq,
      Nat.shiftLeft_eq, Nat.shiftLeft_eq]
    omega
  have hsum : self.hdr = (self.src.srcType * 4 + self.dst.dstType) * 2 ^ 11 + self.nBits := by
    rw [hdr, hhigh, ← Nat.shiftLeft_add_eq_or_of_lt (by omega), Nat.shiftLeft_eq]
  have hand : ∀ x, x &&& 1 = x % 2 ∧ x &&& 3 = x % 4 ∧ x &&& 0x3ff = x % 1024 := fun x =>
    ⟨Nat.and_two_pow_sub_one_eq_mod x 1, Nat.and_two_pow_sub_one_eq_mod x 2,
      Nat.and_two_pow_sub_one_eq_mod x 10⟩
  rw [(hand _).1, (hand _).2.1, (hand _).2.2, Nat.shiftRight_eq_div_pow, Nat.shiftRight_eq_div_pow,
    hsum]
  omega

theorem serialize_cases (h : self.serialize = .ok bs) :
    self.hdr < 256 ^ 2 ∧ ∃ src dst, serializeSrc self.nBits self.src = .ok src ∧
      serializeDst self.dst = .ok dst ∧ bs = beEncode 2 self.hdr ++ (src ++ dst) := by
  obtain ⟨buf, hhdr, h⟩ := bind_eq_ok.1 h
  obtain ⟨src, hsrc, h⟩ := bind_eq_ok.1 h
  obtain ⟨dst, hdst, h⟩ := bind_eq_ok.1 h
  cases h
  obtain ⟨hfit, rfl⟩ := msgPackInto_nil_eq_ok_iff.1 hhdr
  exact ⟨by simpa [fits, hdr] using hfit, src, dst, hsrc, hdst, by simp [encode, hdr]⟩

variable {src : FlowSpecSrc}

theorem length_serializeSrc {nBits : Nat} (h : serializeSrc nBits src = .ok bs) :
    bs.length = srcSize nBits src := by
  cases src with
  | subfield field ofs => exact length_serializeSubfield h
  | immediate value =>
    cases h
    exact length_beEncode _ _

variable {dst : FlowSpecDst}

theorem length_serializeDst (h : serializeDst dst = .ok bs) : bs.length = dstSize dst := by
  cases dst with
  | output =>
    cases h
    rfl
  | _ => exact length_serializeSubfield h

theorem length_serialize (h : self.serialize = .ok bs) : bs.length = self.size := by
  obtain ⟨-, src, dst, hsrc, hdst, rfl⟩ := serialize_cases h
  simp [length_serializeSrc hsrc, length_serializeDst hdst, size]

/-! ### The parts -/

theorem parseSrc_append_iff {nBits : Nat} {mid : Bytes} (h : serializeSrc nBits src = .ok bs)
    (rest : Bytes) : parseSrc src.srcType nBits (bs ++ rest) = .ok (src, mid) ↔
      SrcBack nBits src ∧ mid = rest := by
  have hlen := length_serializeSrc h
  cases src with
  | subfield field ofs =>
    rw [SrcBack, ← parseSubfield_append_iff h rest, parseSrc, FlowSpecSrc.srcType, if_pos rfl]
    have hdrop : (bs ++ rest).drop 6 = rest := drop_left' hlen
    cases parseSubfield (bs ++ rest) <;> simp [hdrop, Prod.ext_iff, eq_comm]
  | immediate value =>
    cases h
    replace hlen := length_beEncode (immediateLen nBits) value
    rw [parseSrc, FlowSpecSrc.srcType, if_neg (by decide)]
    simp only [take_left' hlen, drop_left' hlen, hlen, lt_irrefl, if_false, Except.ok.injEq,
      Prod.mk.injEq, FlowSpecSrc.immediate.injEq, eq_comm (a := rest)]
    refine and_congr_left' ⟨fun hv => ?_, beDecode_beEncode _ _⟩
    have hlt := beDecode_lt (beEncode (immediateLen nBits) value)
    rwa [hv, hlen] at hlt

theorem parseDst_append_iff {mid : Bytes} (h : serializeDst dst = .ok bs) (rest : Bytes) :
    parseDst dst.dstType (bs ++ rest) = .ok (dst, mid) ↔ DstBack dst ∧ mid = rest := by
  have hlen := length_serializeDst h
  cases dst with
  | output =>
    cases h
    simp [parseDst, FlowSpecDst.dstType, DstBack, eq_comm]
  | matchField field ofs | load field ofs =>
    rw [DstBack, ← parseSubfield_append_iff h rest, parseDst.eq_def, FlowSpecDst.dstType]
    have hdrop : (bs ++ rest).drop 6 = rest := drop_left' hlen
    cases parseSubfield (bs ++ rest) <;> simp [hdrop, Prod.ext_iff, eq_comm]

/-! ### The whole -/

theorem unpackFrom_hdr (h : self.serialize = .ok bs) (rest : Bytes) :
    unpackFrom [H] (bs ++ rest) 0 = .ok [.int self.hdr] := by
  obtain ⟨hlt, src, dst, -, -, rfl⟩ := serialize_cases h
  refine unpackFrom_at (by simpa [Struct.exact] using hlt) (by decide) ?_
  simp [encode, At]

/-- The specification that comes back takes its bytes off the front. -/
theorem parse_append_iff (h : self.serialize = .ok bs) {rest mid : Bytes} :
    parse (bs ++ rest) = .ok (some self, mid) ↔ self.Back ∧ mid = rest := by
  have hread := unpackFrom_hdr h rest
  obtain ⟨-, src, dst, hsrc, hdst, rfl⟩ := serialize_cases h
  have hdrop : (beEncode 2 self.hdr ++ (src ++ dst) ++ rest).drop 2 = src ++ (dst ++ rest) := by
    rw [append_assoc, drop_left' (length_beEncode _ _), append_assoc]
  rw [parse, hread]
  simp only [hdrop, ok_bind]
  constructor
  · intro hp
    split at hp
    · cases hp
    split at hp
    · cases hp
    rename_i hne hdstType
    obtain ⟨⟨src', mid'⟩, hsrc', hp⟩ := bind_eq_ok.1 hp
    obtain ⟨⟨dst', mid''⟩, hdst', hp⟩ := bind_eq_ok.1 hp
    obtain ⟨hself, rfl⟩ := Prod.mk.inj (Except.ok.inj hp)
    replace hself := some.inj hself
    have hsrcEq : src' = self.src := congrArg NXFlowSpec.src hself
    have hdstEq : dst' = self.dst := congrArg NXFlowSpec.dst hself
    have hbitsEq : self.hdr &&& 0x3ff = self.nBits := congrArg NXFlowSpec.nBits hself
    have hbits : self.nBits < 1024 := by
      rw [← hbitsEq]
      exact Nat.and_lt_two_pow _ (show 0x3ff < 2 ^ 10 by decide)
    obtain ⟨h1, h2, -⟩ := hdr_bits hbits
    rw [h1, hbitsEq, hsrcEq, parseSrc_append_iff hsrc] at hsrc'
    obtain ⟨hsrcBack, rfl⟩ := hsrc'
    rw [h2, hdstEq, parseDst_append_iff hdst] at hdst'
    exact ⟨⟨hbits, hne, hsrcBack, hdst'.1⟩, hdst'.2⟩
  · rintro ⟨hb, rfl⟩
    obtain ⟨h1, h2, h3⟩ := hdr_bits hb.nBits_lt
    have hdstType : self.dst.dstType ≠ 3 := by
      have := dstType_le self.dst
      omega
    rw [if_neg hb.hdr_ne, h1, h2, h3, if_neg hdstType,
      (parseSrc_append_iff hsrc _).2 ⟨hb.src, rfl⟩, ok_bind,
      (parseDst_append_iff hdst _).2 ⟨hb.dst, rfl⟩]
    rfl

/-- Only a header of zeros is padding. -/
theorem hdr_eq_zero_of_parse (h : self.serialize = .ok bs) {rest mid : Bytes}
    (hp : parse (bs ++ rest) = .ok (none, mid)) : self.hdr = 0 := by
  rw [parse, unpackFrom_hdr h] at hp
  by_contra hne
  simp only [ok_bind, if_neg hne] at hp
  split at hp
  · cases hp
  · obtain ⟨_, -, hp⟩ := bind_eq_ok.1 hp
    obtain ⟨_, -, hp⟩ := bind_eq_ok.1 hp
    cases hp

/-- The specifications the learn action is meant for: one to 1023 bits, and immediates of that
many. -/
def InRange (self : NXFlowSpec) : Prop :=
  1 ≤ self.nBits ∧ self.nBits ≤ 1023 ∧ ∀ value, self.src = .immediate value → value < 2 ^ self.nBits

/-- Every field is given by a name of the table. -/
def Named (self : NXFlowSpec) : Prop :=
  (∀ field ofs, self.src = .subfield field ofs → field.IsNamed) ∧ DstBack self.dst

theorem hdr_ne_zero (h : self.InRange) : self.hdr ≠ 0 := by
  obtain ⟨hpos, hle, -⟩ := h
  obtain ⟨-, -, hbits⟩ := hdr_bits (show self.nBits < 1024 by omega)
  intro hzero
  rw [hzero, Nat.zero_and] at hbits
  omega

theorem two_pow_le_immediate (nBits : Nat) : 2 ^ nBits ≤ 256 ^ immediateLen nBits := by
  rw [show 256 = 2 ^ 8 from rfl, ← Nat.pow_mul]
  refine Nat.pow_le_pow_right (by decide) ?_
  unfold immediateLen
  omega

/-- In range, only the fields matter. -/
theorem InRange.back_iff (h : self.InRange) : self.Back ↔ self.Named := by
  constructor
  · intro hb
    refine ⟨?_, hb.dst⟩
    intro field ofs hsrc
    have hback := hb.src
    rw [hsrc] at hback
    exact hback
  · rintro ⟨hsrc, hdst⟩
    refine ⟨by have := h.2.1; omega, hdr_ne_zero h, ?_, hdst⟩
    cases heq : self.src with
    | subfield field ofs => exact hsrc field ofs heq
    | immediate value => exact Nat.lt_of_lt_of_le (h.2.2 value heq) (two_pow_le_immediate _)

/-! ## Lists of specifications -/

def serializeAll : List NXFlowSpec → PyResult Bytes
  | [] => .ok []
  | spec :: specs => do
    let b ← spec.serialize
    let bs ← serializeAll specs
    return b ++ bs

variable {specs : List NXFlowSpec}

theorem serializeAll_cons {spec : NXFlowSpec} (h : serializeAll (spec :: specs) = .ok bs) :
    ∃ b bs', spec.serialize = .ok b ∧ serializeAll specs = .ok bs' ∧ bs = b ++ bs' := by
  obtain ⟨b, hb, h⟩ := bind_eq_ok.1 h
  obtain ⟨bs', hbs', h⟩ := bind_eq_ok.1 h
  cases h
  exact ⟨b, bs', hb, hbs', rfl⟩

/-- The loop of the learn action appends the specifications to its data. -/
theorem foldlM_serialize {data out : Bytes}
    (h : specs.foldlM (fun data spec => do return data ++ (← spec.serialize)) data = .ok out) :
    ∃ bs, serializeAll specs = .ok bs ∧ out = data ++ bs := by
  induction specs generalizing data with
  | nil =>
    cases h
    exact ⟨[], rfl, (append_nil out).symm⟩
  | cons spec specs ih =>
    obtain ⟨data', hdata, h⟩ := bind_eq_ok.1 h
    obtain ⟨b, hb, hpure⟩ := bind_eq_ok.1 hdata
    cases hpure
    obtain ⟨bs, hbs, rfl⟩ := ih h
    refine ⟨b ++ bs, ?_, append_assoc _ _ _⟩
    rw [serializeAll, hb, hbs]
    rfl

theorem length_serializeAll_even (h : serializeAll specs = .ok bs) : 2 ∣ bs.length := by
  induction specs generalizing bs with
  | nil =>
    cases h
    exact ⟨0, rfl⟩
  | cons spec specs ih =>
    obtain ⟨b, bs', hb, hbs', rfl⟩ := serializeAll_cons h
    rw [length_append, length_serialize hb]
    exact Nat.dvd_add spec.size_even (ih hbs')

/-- The loop over the data of a learn action. -/
def parseAll (data : Bytes) : Py (List (Option NXFlowSpec)) :=
  chopRest (fun r => liftM (parse r)) data

theorem ne_nil_of_serialize {spec : NXFlowSpec} {b : Bytes} (h : spec.serialize = .ok b) :
    b ≠ [] := by
  rintro rfl
  have := length_serialize h
  simp [size] at this
  omega

/-- Zeros at the end are padding. -/
theorem ends_parseAll_zeros (m : Nat) :
    Py.Ends (parseAll (zeros (2 * m))) (.ok (List.replicate m none)) := by
  induction m with
  | zero => exact ends_loop_nil rfl
  | succ m ih =>
    have hparse : parse (zeros 2 ++ zeros (2 * m)) = .ok (none, zeros (2 * m)) := by
      have hread : unpackFrom [H] (zeros 2 ++ zeros (2 * m)) 0 = .ok [.int 0] :=
        unpackFrom_at (by decide) (by decide) (at_front _ _)
      rw [parse, hread]
      rfl
    rw [show 2 * (m + 1) = 2 + 2 * m by omega, zeros_add, replicate_succ]
    exact ends_chopRest_append (by decide) (ends_lift.2 hparse) ih

/-- Specifications that come back are read one after another, up to the padding. -/
theorem ends_parseAll (h : serializeAll specs = .ok bs) (hb : ∀ spec ∈ specs, spec.Back) (m : Nat) :
    Py.Ends (parseAll (bs ++ zeros (2 * m))) (.ok (specs.map some ++ List.replicate m none)) := by
  induction specs generalizing bs with
  | nil =>
    cases h
    exact ends_parseAll_zeros m
  | cons spec specs ih =>
    obtain ⟨b, bs', hbytes, hbs', rfl⟩ := serializeAll_cons h
    have hspec := hb spec mem_cons_self
    rw [append_assoc]
    exact ends_chopRest_append (ne_nil_of_serialize hbytes)
      (ends_lift.2 ((parse_append_iff hbytes).2 ⟨hspec, rfl⟩))
      (ih hbs' fun s hs => hb s (mem_cons_of_mem spec hs))

theorem filterMap_id_padded (specs : List NXFlowSpec) (m : Nat) :
    (specs.map some ++ List.replicate m none).filterMap id = specs := by
  rw [filterMap_append, filterMap_map, filterMap_replicate_of_none rfl, append_nil]
  exact filterMap_some

/-- If the loop gives the specifications that were written, and none of them looks like padding or
is read as such, then all of them come back. -/
theorem back_of_ends_parseAll {xs : List (Option NXFlowSpec)}
    {bs rest : Bytes} (h : serializeAll specs = .ok bs)
    (hne : (∀ spec ∈ specs, spec.hdr ≠ 0) ∨ none ∉ xs)
    (hends : Py.Ends (parseAll (bs ++ rest)) (.ok xs)) (hxs : xs.filterMap id = specs) :
    ∀ spec ∈ specs, spec.Back := by
  induction specs generalizing bs xs with
  | nil =>
    intro spec hspec
    cases hspec
  | cons spec specs ih =>
    obtain ⟨b, bs', hb, hbs', rfl⟩ := serializeAll_cons h
    rw [append_assoc] at hends
    rcases ends_chopRest_ok_cases hends with ⟨-, rfl⟩ | ⟨x, r, ys, -, hparse, rfl, hrest⟩
    · cases hxs
    rw [ends_lift] at hparse
    have hx : x ≠ none := by
      rintro rfl
      rcases hne with hne | hne
      · exact hne spec mem_cons_self (hdr_eq_zero_of_parse hb hparse)
      · exact hne mem_cons_self
    obtain ⟨spec', rfl⟩ := ne_none_iff_exists'.1 hx
    obtain ⟨rfl, htail⟩ : spec' = spec ∧ ys.filterMap id = specs := by
      simpa using hxs
    obtain ⟨hback, rfl⟩ := (parse_append_iff hb).1 hparse
    rw [length_append, Nat.add_sub_cancel, drop_left] at hrest
    intro s hs
    rcases mem_cons.1 hs with rfl | hs
    · exact hback
    · refine ih hbs' ?_ hrest htail s hs
      exact hne.imp (fun hne s hs => hne s (mem_cons_of_mem _ hs))
        (fun hne hmem => hne (mem_cons_of_mem _ hmem))

end NXFlowSpec

/-! ## Nicira actions in front of a rest -/

namespace Action

variable {subtype : Nat}

theorem nxSerialize_cases {data bs : Bytes} (h : nxSerialize subtype data [] 0 = .ok (bs, len)) :
    subtype < 256 ^ 2 ∧ len = roundUp (10 + data.length) 8 ∧ len < 256 ^ 2 ∧
      bs = encode ofpActionExperimenterHeaderPackStr
        [.int ofpatExperimenter, .int len, .int nxExperimenterId] ++
          (beEncode 2 subtype ++ data) := by
  obtain ⟨buf₁, h₁, h⟩ := bind_eq_ok.1 h
  obtain ⟨buf₂, h₂, h⟩ := bind_eq_ok.1 h
  obtain ⟨buf₃, h₃, h⟩ := bind_eq_ok.1 h
  cases h
  obtain ⟨hfit, rfl⟩ := msgPackInto_nil_eq_ok_iff.1 h₁
  have h8 := length_encode hfit
  obtain ⟨hsubFit, rfl⟩ := (msgPackInto_end_eq_ok_iff h8.symm).1 h₂
  have h10 := length_encode hsubFit
  obtain ⟨-, rfl⟩ := (msgPackInto_end_eq_ok_iff rfl).1 h₃
  have hlt : roundUp (8 + 2 + data.length) 8 < 256 ^ 2 := by
    simp only [ofpActionExperimenterHeaderPackStr, fits, Bool.and_eq_true,
      decide_eq_true_eq] at hfit
    exact hfit.2.1
  exact ⟨by simpa [fits] using hsubFit, rfl, hlt, by simp [encode]⟩

/-- The parser finds the payload behind the header, with the bytes up to the announced length. -/
theorem parserWith_nx {conv : Addrconv} {nested : Bytes → Nat → Py (Action × Nat)}
    {data bs pad buf : Bytes} {off : Nat} (h : nxSerialize subtype data [] 0 = .ok (bs, len))
    (hpad : pad.length = len - bs.length) (hat : At buf off (bs ++ pad)) :
    parserWith conv nested buf off = (do
      let obj ← nxParse nested (beEncode 2 subtype ++ (data ++ pad))
      return (obj, len)) := by
  obtain ⟨-, hlen, hlt, rfl⟩ := nxSerialize_cases h
  set head := encode ofpActionExperimenterHeaderPackStr
    [.int ofpatExperimenter, .int len, .int nxExperimenterId] with hhead
  have h8 : head.length = 8 := length_encode_experimenter
  rw [append_assoc] at hat
  have hslice : slice buf (off + 8) (off + len) = beEncode 2 subtype ++ (data ++ pad) := by
    have hle := le_roundUp (10 + data.length) (show 0 < 8 by decide)
    have hright := hat.right.slice_eq
    simp only [length_append, length_beEncode, h8] at hright hpad
    rw [← append_assoc, ← hright]
    congr 1
    omega
  rw [parserWith_experimenter conv nested (by decide) hlt hat.left hslice, if_pos rfl]

/-! ## The learn action -/

section Learn

variable {tableId idle hard priority cookie flags finIdle finHard : Nat} {specs : List NXFlowSpec}

theorem learnData_cases {data : Bytes}
    (h : learnData tableId specs idle hard priority cookie flags finIdle finHard = .ok data) :
    ∃ bs, NXFlowSpec.serializeAll specs = .ok bs ∧
      Struct.exact learnPackStr [.int idle, .int hard, .int priority, .int cookie, .int flags,
        .int tableId, .int finIdle, .int finHard] = true ∧
      data = encode learnPackStr [.int idle, .int hard, .int priority, .int cookie, .int flags,
        .int tableId, .int finIdle, .int finHard] ++ bs := by
  obtain ⟨head, hhead, h⟩ := bind_eq_ok.1 h
  obtain ⟨bs, hbs, rfl⟩ := NXFlowSpec.foldlM_serialize h
  obtain ⟨hfit, rfl⟩ := msgPackInto_nil_eq_ok_iff.1 hhead
  refine ⟨bs, hbs, ?_, rfl⟩
  exact exact_of_fits_int (show fits learnPackStr ([idle, hard, priority, cookie, flags, tableId,
    finIdle, finHard].map .int) = true from hfit)

/-- The parser reads the head of the data and then the specifications. -/
theorem learnParse_append (hex : Struct.exact learnPackStr [.int idle, .int hard, .int priority,
      .int cookie, .int flags, .int tableId, .int finIdle, .int finHard] = true) (rest : Bytes) :
    learnParse (encode learnPackStr [.int idle, .int hard, .int priority, .int cookie, .int flags,
        .int tableId, .int finIdle, .int finHard] ++ rest) = (do
      let specs ← NXFlowSpec.parseAll rest
      return learn tableId (specs.filterMap id) idle hard priority cookie flags
        finIdle finHard) := by
  have hread := unpackFrom_at hex (by decide) (at_front _ rest)
  rw [learnParse, hread, lift_ok_bind]
  rfl

/-- A learn action on the wire, and what the parser makes of it with the bytes up to its announced
length. -/
theorem learn_cases {conv : Addrconv}
    (h : (learn tableId specs idle hard priority cookie flags finIdle finHard).serialize conv [] 0 =
      .ok (bs, len)) :
    ∃ block, NXFlowSpec.serializeAll specs = .ok block ∧ bs.length = 32 + block.length ∧
      len = roundUp (32 + block.length) 8 ∧ ∀ {nested pad buf off},
        pad.length = len - bs.length → At buf off (bs ++ pad) →
        parserWith conv nested buf off = (do
          let obj ← (do
            let specs ← NXFlowSpec.parseAll (block ++ pad)
            return learn tableId (specs.filterMap id) idle hard priority cookie flags finIdle
              finHard)
          return (obj, len)) := by
  obtain ⟨data, hdata, hser⟩ := bind_eq_ok.1 h
  obtain ⟨block, hblock, hex, rfl⟩ := learnData_cases hdata
  obtain ⟨-, hlen, -, hbs⟩ := nxSerialize_cases hser
  have h22 := length_encode (fits_of_exact hex)
  have h22' : calcsize learnPackStr = 22 := rfl
  rw [length_append, h22, h22'] at hlen
  refine ⟨block, hblock, ?_, by rw [hlen]; congr 1; omega, fun hpad hat => ?_⟩
  · rw [hbs]
    simp only [length_append, length_encode_experimenter, length_beEncode, h22, h22']
    omega
  · rw [parserWith_nx hser hpad hat, nxParse_append _ (by decide), if_neg (by decide), if_pos rfl,
      append_assoc, learnParse_append hex]

theorem roundUp_eight_sub_even {n : Nat} (h : 2 ∣ n) : ∃ m, roundUp n 8 - n = 2 * m := by
  have hdvd : 8 ∣ roundUp n 8 := dvd_roundUp n 8
  exact ⟨(roundUp n 8 - n) / 2, by omega⟩

/-- A learn action with specifications in range, with its zero padding and whatever may follow,
comes back exactly when all its fields are given by names of the table. -/
theorem learn_roundTrip_iff (conv : Addrconv) (depth : Nat) (hrange : ∀ spec ∈ specs, spec.InRange)
    {bs : Bytes} {len : Nat}
    (hser : (learn tableId specs idle hard priority cookie flags finIdle finHard).serialize
      conv [] 0 = .ok (bs, len)) (rest : Bytes) :
    Py.Ends (parser conv depth (bs ++ (zeros (len - bs.length) ++ rest)) 0)
      (.ok (learn tableId specs idle hard priority cookie flags finIdle finHard, len)) ↔
      ∀ spec ∈ specs, spec.Named := by
  obtain ⟨block, hblock, hbs, hlen, hparse⟩ := learn_cases hser
  obtain ⟨nested, hnested⟩ := parser_eq conv depth
  obtain ⟨m, hm⟩ : ∃ m, len - bs.length = 2 * m := by
    have heven := NXFlowSpec.length_serializeAll_even hblock
    rw [hlen, hbs]
    exact roundUp_eight_sub_even (by omega)
  rw [hnested, hparse (length_zeros _) (by rw [← append_assoc]; exact at_front _ _), hm]
  have hback : (∀ spec ∈ specs, spec.Named) ↔ ∀ spec ∈ specs, spec.Back :=
    forall₂_congr fun spec hspec => ((hrange spec hspec).back_iff).symm
  rw [hback]
  constructor
  · intro hends
    obtain ⟨obj, hobj, hpure⟩ := hends.of_bind
    cases ends_pure.1 hpure
    obtain ⟨xs, hxs, hpure⟩ := hobj.of_bind
    have hspecs : xs.filterMap id = specs := by
      have := ends_pure.1 hpure
      simpa using this
    exact NXFlowSpec.back_of_ends_parseAll hblock
      (.inl fun spec hspec => NXFlowSpec.hdr_ne_zero (hrange spec hspec)) hxs hspecs
  · intro hb
    refine Py.Ends.bind (Py.Ends.bind (NXFlowSpec.ends_parseAll hblock hb m) (ends_pure.2 rfl)) ?_
    rw [NXFlowSpec.filterMap_id_padded]
    exact ends_pure.2 rfl

/-- A match on an immediate of twelve bits, a load of a register and an output. -/
def threeSpecs : List NXFlowSpec :=
  [⟨.immediate 0xabc, .matchField (.named "vlan_vid") 0, 12⟩,
    ⟨.subfield (.named "eth_src") 0, .load (.named "reg0") 0, 32⟩,
    ⟨.subfield (.named "in_port") 0, .output, 16⟩]

theorem threeSpecs_spec : ∀ spec ∈ threeSpecs, spec.InRange ∧ spec.Named := by
  intro spec hspec
  simp only [threeSpecs, mem_cons, not_mem_nil, or_false] at hspec
  rcases hspec with rfl | rfl | rfl
  · refine ⟨⟨by decide, by decide, ?_⟩, ?_, trivial⟩
    · rintro value ⟨⟩
      decide
    · rintro field ofs ⟨⟩
  all_goals
    refine ⟨⟨by decide, by decide, ?_⟩, ?_, trivial⟩
    · rintro value ⟨⟩
    · rintro field ofs ⟨⟩
      trivial

theorem learn_roundTrip_threeSpecs :
    ∃ bs len, (learn 3 threeSpecs 0 0 0x8000 7 0 0 0).serialize OFPMatch.latin1Addrconv [] 0 =
        .ok (bs, len) ∧
      Py.Ends (parser OFPMatch.latin1Addrconv 0 (bs ++ (zeros (len - bs.length) ++ [])) 0)
        (.ok (learn 3 threeSpecs 0 0 0x8000 7 0 0 0, len)) :=
  ⟨_, _, rfl,
    (learn_roundTrip_iff OFPMatch.latin1Addrconv 0 (fun spec h => (threeSpecs_spec spec h).1)
    rfl []).2 fun spec h => (threeSpecs_spec spec h).2⟩

/-- A field that is given by its number: the action is written, and the parser raises on it. -/
theorem learn_fieldNumber_raises :
    ∃ bs len, (learn 3 [⟨.subfield (.field 100) 0, .load (.named "reg0") 0, 16⟩]
        0 0 0x8000 7 0 0 0).serialize OFPMatch.latin1Addrconv [] 0 = .ok (bs, len) ∧
      Py.Ends (parser OFPMatch.latin1Addrconv 0 (bs ++ zeros (len - bs.length)) 0)
        (.error .assertionError) :=
  ⟨_, _, rfl, 3, rfl⟩

end Learn

/-! ## Actions whose values come back

`NXAction.serialize` announces a multiple of eight bytes and writes no padding. Whoever writes
behind the action pads the gap with zeros, and with that padding every action that is `Readable`
comes back, wherever it stands. The data of a conntrack action is closed up instead: there only the
last action may be short. -/

section Readable

variable {conv : Addrconv}

/-- The action writes all the bytes that it announces. -/
def Flush (conv : Addrconv) (a : Action) : Prop := ∃ bs, a.serialize conv [] 0 = .ok (bs, bs.length)

/-- Fields are given by names of the table, values in the form in which the parser returns them;
`inner` is the condition on the actions inside a conntrack action. -/
def ReadableWith (conv : Addrconv) (inner : Action → Prop) : Action → Prop
  | regMove srcField dstField _ _ _ => srcField.IsNamed ∧ dstField.IsNamed
  | learn _ specs _ _ _ _ _ _ _ => ∀ spec ∈ specs, spec.Back
  | conjunction _ _ _ | resubmitTable _ _ => True
  | ct _ _ _ _ _ actions => (∀ a ∈ actions, inner a) ∧ ∀ a ∈ actions.dropLast, a.Flush conv
  | a => a.Regular conv

def Readable (conv : Addrconv) : Nat → Action → Prop
  | 0 => ReadableWith conv fun _ => False
  | depth + 1 => ReadableWith conv (Readable conv depth)

variable {nested : Bytes → Nat → Py (Action × Nat)} {a : Action} {data : Bytes}

/-- A Nicira action comes back if its payload does, with the padding. -/
theorem reads_nx (hser : ∀ buf off, a.serialize conv buf off = nxSerialize subtype data buf off)
    (hok : a.serialize conv [] 0 = .ok (bs, len))
    (hparse : ∀ gap, roundUp (10 + data.length) 8 = 10 + data.length + gap →
      Py.Ends (nxParse nested (beEncode 2 subtype ++ (data ++ zeros gap))) (.ok a)) :
    ReadsAt (parserWith conv nested) a (a.serialize conv).wire := by
  rw [Writer.wire_eq hok]
  have hle := (serialize_rounded conv a).length_le hok
  rw [hser] at hok
  obtain ⟨-, hlen, -, hbs⟩ := nxSerialize_cases hok
  have hsize : bs.length = 10 + data.length := by
    rw [hbs]
    simp only [length_append, length_encode_experimenter, length_beEncode]
    omega
  refine ⟨by rw [length_padded hle]; omega, fun hat => ?_⟩
  rw [length_padded hle, parserWith_nx hok (length_zeros _) hat]
  exact (hparse _ (by omega)).bind (ends_pure.2 rfl)

theorem learn_reads {tableId idle hard priority cookie flags finIdle finHard : Nat}
    {specs : List NXFlowSpec}
    (hok : (learn tableId specs idle hard priority cookie flags finIdle finHard).serialize
      conv [] 0 = .ok (bs, len)) (hback : ∀ spec ∈ specs, spec.Back) :
    ReadsAt (parserWith conv nested)
      (learn tableId specs idle hard priority cookie flags finIdle finHard)
      ((learn tableId specs idle hard priority cookie flags finIdle finHard).serialize
        conv).wire := by
  obtain ⟨data, hdata, -⟩ := bind_eq_ok.1 hok
  obtain ⟨block, hblock, hex, rfl⟩ := learnData_cases hdata
  refine reads_nx (fun buf off => by rw [serialize, hdata]; rfl) hok fun gap hgap => ?_
  obtain ⟨m, rfl⟩ : ∃ m, gap = 2 * m := by
    have heven := NXFlowSpec.length_serializeAll_even hblock
    have h22 : (encode learnPackStr _).length = 22 := length_encode (fits_of_exact hex)
    rw [length_append, h22] at hgap
    obtain ⟨m, hm⟩ := roundUp_eight_sub_even (n := 10 + (22 + block.length)) (by omega)
    exact ⟨m, by omega⟩
  rw [nxParse_append _ (by decide), if_neg (by decide), if_pos rfl, append_assoc,
    learnParse_append hex]
  refine Py.Ends.bind (NXFlowSpec.ends_parseAll hblock hback m) ?_
  rw [NXFlowSpec.filterMap_id_padded]
  exact ends_pure.2 rfl

/-- The data of a move is its three numbers and the headers of its two fields. -/
theorem regMove_reads {srcField dstField : OxmName} {nBits srcOfs dstOfs : Nat}
    (hok : (regMove srcField dstField nBits srcOfs dstOfs).serialize conv [] 0 = .ok (bs, len))
    (hsrc : srcField.IsNamed) (hdst : dstField.IsNamed) :
    ReadsAt (parserWith conv nested) (regMove srcField dstField nBits srcOfs dstOfs)
      ((regMove srcField dstField nBits srcOfs dstOfs).serialize conv).wire := by
  obtain ⟨data, hdata, -⟩ := bind_eq_ok.1 hok
  refine reads_nx (fun buf off => by rw [serialize, hdata]; rfl) hok fun gap _ => ?_
  obtain ⟨nums, hnums, hdata⟩ := bind_eq_ok.1 hdata
  obtain ⟨n, hn, hdata⟩ := bind_eq_ok.1 hdata
  obtain ⟨⟨data₁, _⟩, hdata₁, hdata⟩ := bind_eq_ok.1 hdata
  obtain ⟨n', hn', hdata⟩ := bind_eq_ok.1 hdata
  obtain ⟨⟨data₂, _⟩, hdata₂, hdata⟩ := bind_eq_ok.1 hdata
  cases hdata
  obtain ⟨hfit, rfl⟩ := msgPackInto_nil_eq_ok_iff.1 hnums
  obtain ⟨hdr, hhdr, rfl⟩ := headerOf_of_serialize hn hdata₁
  obtain ⟨hdr', hhdr', rfl⟩ := headerOf_of_serialize hn' hdata₂
  have hex : Struct.exact [H, H, H] [.int nBits, .int srcOfs, .int dstOfs] = true :=
    exact_of_fits_int (show fits [H, H, H] ([nBits, srcOfs, dstOfs].map .int) = true from hfit)
  have h6 : (encode [H, H, H] [.int nBits, .int srcOfs, .int dstOfs]).length = 6 :=
    length_encode hfit
  rw [nxParse_append _ (by decide), if_pos rfl, ends_lift, append_assoc, append_assoc, regMoveParse,
    unpackFrom_at hex (by decide) (at_front _ _)]
  obtain ⟨num, name, hname, hparse, huser⟩ | ⟨hnot, -⟩ := hhdr.parse_append (hdr' ++ zeros gap)
  swap
  · exact absurd hsrc hnot
  obtain ⟨num', name', hname', hparse', huser'⟩ | ⟨hnot, -⟩ := hhdr'.parse_append (zeros gap)
  swap
  · exact absurd hdst hnot
  simp only [ok_bind, drop_left' h6, hparse, huser, drop_left, hparse', huser']
  cases srcField with
  | field n => cases hsrc
  | named s =>
    cases dstField with
    | field n => cases hdst
    | named s' =>
      rw [hname s rfl, hname' s' rfl]
      rfl

/-- The actions of a conntrack action are joined, with the padding of the last one. -/
theorem serializeNested_padded {actions : List Action} {data out : Bytes}
    (h : serializeNested conv actions data = .ok out)
    (hflush : ∀ a ∈ actions.dropLast, a.Flush conv) :
    (∀ a ∈ actions, ∃ p, a.serialize conv [] 0 = .ok p) ∧
      ∃ gap < 8, out ++ zeros gap =
        data ++ (actions.map fun a => (a.serialize conv).wire).flatten := by
  induction actions generalizing data with
  | nil =>
    cases h
    exact ⟨by simp, 0, by simp⟩
  | cons a actions ih =>
    obtain ⟨⟨buf, k⟩, ha, h⟩ := bind_eq_ok.1 h
    rw [(serialize_rounded conv a).writes] at ha
    cases hw : a.serialize conv [] 0 with
    | error e => rw [hw] at ha; cases ha
    | ok p =>
      rw [hw] at ha
      cases ha
      have hle := (serialize_rounded conv a).length_le hw
      have hlen := (serialize_rounded conv a).len_eq hw
      rw [splice_end] at h
      rw [map_cons, flatten_cons, Writer.wire_eq hw]
      rcases Decidable.eq_or_ne actions [] with rfl | hne
      · cases h
        have hlt := roundUp_lt p.1.length (show 0 < 8 by decide)
        exact ⟨by simpa using ⟨_, _, hw⟩, p.2 - p.1.length, by omega, by simp [padded]⟩
      · rw [dropLast_cons_of_ne_nil hne, forall_mem_cons] at hflush
        obtain ⟨⟨bs, hbs⟩, hflush⟩ := hflush
        cases hw.symm.trans hbs
        obtain ⟨hoks, gap, hgap, heq⟩ := ih h hflush
        refine ⟨forall_mem_cons.2 ⟨⟨_, hw⟩, hoks⟩, gap, hgap, ?_⟩
        rw [heq]
        simp [padded]

theorem ct_reads {flags zoneSrc zoneOfsNbits recircTable alg : Nat} {actions : List Action}
    (hok : (ct flags zoneSrc zoneOfsNbits recircTable alg actions).serialize conv [] 0 =
      .ok (bs, len)) (hflush : ∀ a ∈ actions.dropLast, a.Flush conv)
    (hnested : ∀ a ∈ actions, ∀ p, a.serialize conv [] 0 = .ok p →
      ReadsAt nested a (a.serialize conv).wire) :
    ReadsAt (parserWith conv nested) (ct flags zoneSrc zoneOfsNbits recircTable alg actions)
      ((ct flags zoneSrc zoneOfsNbits recircTable alg actions).serialize conv).wire := by
  obtain ⟨head, hhead, hser⟩ := bind_eq_ok.1 hok
  obtain ⟨data, hdata, -⟩ := bind_eq_ok.1 hser
  refine reads_nx (fun buf off => by rw [serialize, hhead, ok_bind, hdata]; rfl) hok
    fun gap hgap => ?_
  obtain ⟨hfit, rfl⟩ := msgPackInto_nil_eq_ok_iff.1 hhead
  have h14 := length_encode hfit
  have h14' : calcsize ctPackStr = 14 := rfl
  obtain ⟨hoks, gap', hlt, heq⟩ := serializeNested_padded hdata hflush
  -- the data and this padding are a multiple of eight bytes, so it is the padding of the action
  obtain rfl : gap' = gap := by
    have hsize := congrArg length heq
    have hdvd := dvd_length_flatten fun a (_ : a ∈ actions) => (serialize_rounded conv a).dvd_wire
    have hround := roundUp_lt (10 + data.length) (show 0 < 8 by decide)
    have hdvd' := dvd_roundUp (10 + data.length) 8
    rw [length_append, length_append, length_zeros, h14, h14'] at hsize
    omega
  have hex := exact_of_fits_int
    (show fits ctPackStr ([flags, zoneSrc, zoneOfsNbits, recircTable, alg].map .int) = true
      from hfit)
  have hacts : Py.Ends (chop (fun r => nested r 0) _) (.ok (actions.map id)) :=
    ReadsAt.ends_chop fun a ha => (hoks a ha).elim (hnested a ha)
  rw [List.map_id] at hacts
  rw [nxParse_append _ (by decide), if_neg (by decide), if_neg (by decide), if_neg (by decide),
    if_neg (by decide), if_pos rfl, heq]
  refine Py.Ends.bind (ends_lift.2 (unpackFrom_at hex (by decide) (at_front _ _)))
    (Py.Ends.bind ?_ (ends_pure.2 rfl))
  rw [drop_left' h14]
  exact hacts

variable {p : Bytes × Nat}

theorem Regular.reads (h : a.Regular conv) (depth : Nat) :
    ReadsAt (parser conv depth) a (a.serialize conv).wire := by
  obtain ⟨bs, hbs⟩ := h.encodes
  rw [(hbs depth).wire_eq]
  exact (hbs depth).reads

/-- One level of the parser. -/
theorem ReadableWith.reads {inner : Action → Prop} {depth : Nat} (h : a.ReadableWith conv inner)
    (hparser : parser conv depth = parserWith conv nested)
    (hinner : ∀ a p, inner a → a.serialize conv [] 0 = .ok p →
      ReadsAt nested a (a.serialize conv).wire)
    (hok : a.serialize conv [] 0 = .ok p) :
    ReadsAt (parser conv depth) a (a.serialize conv).wire := by
  cases a with
  | regMove => exact hparser ▸ regMove_reads hok h.1 h.2
  | learn => exact hparser ▸ learn_reads hok h
  | conjunction clause nClauses id =>
    obtain ⟨data, hdata, -⟩ := bind_eq_ok.1 hok
    obtain ⟨hfit, rfl⟩ := msgPackInto_nil_eq_ok_iff.1 hdata
    have hex : Struct.exact conjunctionPackStr [.int clause, .int nClauses, .int id] = true :=
      exact_of_fits_int (show fits _ ([clause, nClauses, id].map .int) = true from hfit)
    rw [hparser]
    refine reads_nx (fun buf off => by rw [serialize, hdata]; rfl) hok fun gap _ => ?_
    rw [nxParse_append _ (by decide), if_neg (by decide), if_neg (by decide), if_pos rfl, ends_lift,
      conjunctionParse, unpackFrom_at hex (by decide) (at_front _ _)]
    rfl
  | resubmitTable inPort tableId =>
    obtain ⟨data, hdata, -⟩ := bind_eq_ok.1 hok
    obtain ⟨hfit, rfl⟩ := msgPackInto_nil_eq_ok_iff.1 hdata
    have hex : Struct.exact resubmitTablePackStr [.int inPort, .int tableId] = true :=
      exact_of_fits_int (show fits _ ([inPort, tableId].map .int) = true from hfit)
    rw [hparser]
    refine reads_nx (fun buf off => by rw [serialize, hdata]; rfl) hok fun gap _ => ?_
    rw [nxParse_append _ (by decide), if_neg (by decide), if_neg (by decide), if_neg (by decide),
      if_pos rfl, ends_lift, resubmitTableParse, unpackFrom_at hex (by decide) (at_front _ _)]
    rfl
  | ct => exact hparser ▸ ct_reads hok h.2 fun a ha p => hinner a p (h.1 a ha)
  | _ =>
    refine Regular.reads ?_ depth
    exact h

/-- A readable action comes back with its padding, wherever it stands. -/
theorem Readable.reads {depth : Nat} (h : a.Readable conv depth)
    (hok : a.serialize conv [] 0 = .ok p) :
    ReadsAt (parser conv depth) a (a.serialize conv).wire := by
  induction depth generalizing a p with
  | zero => exact ReadableWith.reads h rfl (fun _ _ hfalse => hfalse.elim) hok
  | succ depth ih => exact ReadableWith.reads h rfl (fun _ _ => ih) hok

end Readable

end Action

end BebaCtrl
