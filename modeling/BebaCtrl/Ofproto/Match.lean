import Mathlib.Data.List.Nodup
import Mathlib.Data.List.Perm.Subperm
import BebaCtrl.Lib.Loop
import BebaCtrl.Ofproto.OxmFields

/-!
# Flow matches

`OFPMatch` is built from keyword arguments, sorted by field number, and goes over the wire as a
type, a length and the fields, padded to eight bytes. Its parser walks the fields twice: once for
the objects of the old interface, once for the pairs of name and value. The setters of the old
interface, which compose a match field by field, are not modelled.

The main result is the round trip `match_roundTrip`.
-/

namespace BebaCtrl

open Struct List

/-! ## Fields of the old interface -/

/-- How the class of a registered header turns the unpacked values into its value. -/
inductive MTKind where
  | plain
  | vlanVid
  | ipv6
  | pbbIsid
  deriving DecidableEq, Repr

structure MTClass where
  packStr : Fmt
  kind : MTKind
  deriving DecidableEq, Repr

structure MatchField where
  header : Nat
  nBytes : Nat
  length : Nat
  value : List Val
  mask : List Val
  deriving DecidableEq, Repr

def oxmTlvHeader (field length : Nat) : Nat :=
  (0x8000 <<< 16) ||| (field <<< 9) ||| (0 <<< 8) ||| length

def oxmTlvHeaderW (field length : Nat) : Nat :=
  (0x8000 <<< 16) ||| (field <<< 9) ||| (1 <<< 8) ||| (length * 2)

/-- `_FIELDS_HEADERS`: the headers of a class without and, where it has one, with mask. -/
def fieldsHeaders : List (Nat × MTClass) :=
  let plain (field : Nat) (size : Nat) (item : Item) : List (Nat × MTClass) :=
    [(oxmTlvHeader field size, ⟨[item], .plain⟩)]
  let masked (field size : Nat) (packStr : Fmt) (kind : MTKind) : List (Nat × MTClass) :=
    [(oxmTlvHeader field size, ⟨packStr, kind⟩), (oxmTlvHeaderW field size, ⟨packStr, kind⟩)]
  plain 0 4 I ++ masked 2 8 [Q] .plain ++ plain 1 4 I ++ masked 3 6 [s 6] .plain ++
    masked 4 6 [s 6] .plain ++ plain 5 2 H ++ masked 6 2 [H] .vlanVid ++ plain 7 1 B ++
    plain 8 1 B ++ plain 9 1 B ++ plain 10 1 B ++ masked 11 4 [I] .plain ++
    masked 12 4 [I] .plain ++ plain 13 2 H ++ plain 14 2 H ++ plain 15 2 H ++ plain 16 2 H ++
    plain 17 2 H ++ plain 18 2 H ++ plain 19 1 B ++ plain 20 1 B ++ plain 21 2 H ++
    masked 22 4 [I] .plain ++ masked 23 4 [I] .plain ++ masked 24 6 [s 6] .plain ++
    masked 25 6 [s 6] .plain ++ masked 26 16 [H, H, H, H, H, H, H, H] .ipv6 ++
    masked 27 16 [H, H, H, H, H, H, H, H] .ipv6 ++ masked 28 4 [I] .plain ++ plain 34 4 I ++
    plain 29 1 B ++ plain 30 1 B ++
    [(oxmTlvHeader 31 16, ⟨[H, H, H, H, H, H, H, H], .ipv6⟩)] ++ plain 32 6 (s 6) ++
    plain 33 6 (s 6) ++ plain 35 1 B ++ plain 36 1 B ++ masked 37 3 [B, B, B] .pbbIsid ++
    masked 38 8 [Q] .plain ++ masked 39 2 [H] .plain ++ masked 40 2 [H] .plain

def MTClass.toValue (cls : MTClass) (vals : List Val) : List Val :=
  match cls.kind, vals with
  | .vlanVid, [.int v] => [.int (v &&& 0xefff)]
  | .pbbIsid, [.int v1, .int v2, .int v3] => [.int ((v1 <<< 16) ||| (v2 <<< 8) ||| v3)]
  | _, vals => vals

/-- The mask of a VLAN id keeps its presence bit. -/
def MTClass.toMask (cls : MTClass) (vals : List Val) : List Val :=
  if cls.kind = .vlanVid then vals else cls.toValue vals

def hasmask (header : Nat) : Bool := (header >>> 8) &&& 1 = 1

def oxmTlvHeaderExtractLength (header : Nat) : Nat :=
  if hasmask header then (header &&& 0xff) / 2 else header &&& 0xff

def MTClass.fieldParser (cls : MTClass) (header : Nat) (buf : Bytes) (offset : Nat) :
    PyResult MatchField := do
  let packStr := if hasmask header then cls.packStr ++ cls.packStr else cls.packStr
  let vals ← unpackFrom packStr buf (offset + 4)
  let n := arity cls.packStr
  return ⟨header, oxmTlvHeaderExtractLength header, 0, cls.toValue (vals.take n),
    cls.toMask (vals.drop n)⟩

/-- `OFPMatchField.parser` -/
def matchFieldParser (buf : Bytes) (offset : Nat) : PyResult MatchField := do
  let [.int header] ← unpackFrom [I] buf offset | throw .valueError
  let field ← match fieldsHeaders.lookup header with
    | some cls => cls.fieldParser header buf offset
    | none => pure ⟨header, oxmTlvHeaderExtractLength header, 0, [], []⟩
  return { field with length := (header &&& 0xff) + 4 }

/-- A registered class reads exactly the payload its header announces. -/
theorem calcsize_fieldsHeaders : ∀ p ∈ fieldsHeaders,
    calcsize (if hasmask p.1 then p.2.packStr ++ p.2.packStr else p.2.packStr) = p.1 &&& 0xff := by
  decide +kernel

variable {buf : Bytes}

theorem matchFieldParser_ok {offset header : Nat} (hlt : header < 256 ^ 4)
    (hat : At buf offset (encode [I] [.int header]))
    (hlen : offset + 4 + (header &&& 0xff) ≤ buf.length) :
    ∃ field, matchFieldParser buf offset = .ok field ∧ field.length = 4 + (header &&& 0xff) := by
  have hex : exact [I] [.int header] = true := by simpa [Struct.exact] using hlt
  rw [matchFieldParser, unpackFrom_at hex (by decide) hat]
  simp only [ok_bind]
  cases hl : fieldsHeaders.lookup header with
  | none => exact ⟨_, rfl, Nat.add_comm _ _⟩
  | some cls =>
    have hmem : (header, cls) ∈ fieldsHeaders := by
      obtain ⟨l₁, l₂, h, -⟩ := lookup_eq_some_iff.1 hl
      rw [h]
      simp
    have hsize := calcsize_fieldsHeaders _ hmem
    simp only [MTClass.fieldParser, unpackFrom, hsize, if_pos hlen, ok_bind, pure_eq_ok]
    exact ⟨_, rfl, Nat.add_comm _ _⟩

theorem matchFieldParser_tlv {f : OxmField} {size : Nat} (hf : f.Entry size) {value : Bytes}
    {mask : Option Bytes} (hs : f.Sized value mask) {offset : Nat}
    (hat : At buf offset (f.tlv value mask)) :
    ∃ field, matchFieldParser buf offset = .ok field ∧
      field.length = (f.tlv value mask).length := by
  have hsize : size = value.length := Option.some.inj (hf.size_eq.symm.trans hs.1)
  subst hsize
  obtain ⟨hlt, -, -, hlen⟩ := hf.word_bits (maskBit_le mask)
  have hne : f.tlv value mask ≠ [] := by
    intro h
    have h2 := length_tlv f hs
    rw [h, length_nil] at h2
    omega
  have hle := hat.length_le hne
  rw [length_tlv f hs] at hle
  rw [length_tlv f hs, ← hlen]
  refine matchFieldParser_ok hlt ?_ (by omega)
  simpa [encode] using hat.left

/-! ## Matches -/

def ofpmtOxm : Nat := 1

structure OFPMatch where
  type : Nat
  length : Option Nat
  /-- the fields of the old interface -/
  fields : List MatchField
  /-- `_fields2`, the pairs of name and value -/
  fields2 : List (OxmName × UserValue)
  deriving DecidableEq, Repr

/-- The number by which fields are sorted. -/
def OxmNum.sortKey : OxmNum → Nat
  | .basic n => n
  | .experimenter expId _ => expId

abbrev OxmTriple := OxmNum × Bytes × Option Bytes

namespace OFPMatch

section Conv

variable (conv : Addrconv)

/-- `OFPMatch(**kwargs)`; the arguments come in the order in which the dictionary lists them. -/
def ofKwargs (kwargs : List (OxmName × UserValue)) : PyResult OFPMatch := do
  let kwargs ← kwargs.mapM fun (k, v) => oxmNormalizeUser conv k v
  let fields ← kwargs.mapM fun (k, v) => oxmFromUser conv k v
  let fields := fields.mergeSort fun x y => x.1.sortKey ≤ y.1.sortKey
  let fields2 ← fields.mapM fun (n, v, m) => oxmToUser conv n v m
  return ⟨ofpmtOxm, none, [], fields2⟩

/-- Write fields one after another. -/
def serializeFields : List OxmTriple → Bytes → Nat → PyResult (Bytes × Nat)
  | [], buf, offset => .ok (buf, offset)
  | (n, value, mask) :: fields, buf, offset => do
    let (buf, len) ← oxmSerialize n value mask buf offset
    serializeFields fields buf (offset + len)

/-- The buffer, the number of bytes written, and the match with its length set. -/
def serialize (self : OFPMatch) (buf : Bytes) (offset : Nat) :
    PyResult (Bytes × Nat × OFPMatch) := do
  let fields ← self.fields2.mapM fun (k, uv) => oxmFromUser conv k uv
  let (buf, fieldOffset) ← serializeFields fields buf (offset + calcsize [H, H])
  let length := fieldOffset - offset
  let buf ← msgPackInto [H, H] buf offset [.int ofpmtOxm, .int length]
  let padLen := roundUp length 8 - length
  let buf ← msgPackInto [x padLen] buf fieldOffset []
  return (buf, length + padLen, { self with length := some length })

def parserOld (buf : Bytes) (offset length : Nat) : Py (List MatchField) :=
  Py.span (fun o => do
    let field ← matchFieldParser buf o
    return (field, field.length)) offset length

def parserFields (buf : Bytes) (offset length : Nat) : Py (List (OxmName × UserValue)) :=
  Py.span (fun o => do
    let (n, value, mask, fieldLen) ← oxmParse buf o
    let kuv ← oxmToUser conv n value mask
    return (kuv, fieldLen)) offset length

def parser (buf : Bytes) (offset : Nat) : Py OFPMatch := do
  let [.int type, .int length] ← unpackFrom [H, H] buf offset | Py.raise .valueError
  let fields ← parserOld buf (offset + 4) (length - 4)
  let fields2 ← parserFields conv buf (offset + 4) (length - 4)
  return ⟨type, some length, fields, fields2⟩

end Conv

/-! ## The round trip -/

variable {conv : Addrconv}

/-- Number, value and mask of a field of the table, with the right widths. -/
def Good (t : OxmTriple) : Prop := ∃ f ∈ oxmTypes, t.1 = f.num ∧ f.Sized t.2.1 t.2.2

/-- The bytes of a field given by its number. -/
def tlvOf (t : OxmTriple) : Bytes :=
  match numToField t.1 with
  | some f => f.tlv t.2.1 t.2.2
  | none => []

theorem tlvOf_eq {f : OxmField} {size : Nat} (hf : f.Entry size) (value : Bytes)
    (mask : Option Bytes) : tlvOf (f.num, value, mask) = f.tlv value mask := by
  simp [tlvOf, hf.byNum]

variable {t : OxmTriple}

/-- A good field by its entry of the table. -/
theorem Good.entry (h : Good t) : ∃ f : OxmField, f.num = t.1 ∧
    ∃ size, f.Entry size ∧ f.Sized t.2.1 t.2.2 ∧ tlvOf t = f.tlv t.2.1 t.2.2 ∧
      0 < (f.tlv t.2.1 t.2.2).length := by
  obtain ⟨n, value, mask⟩ := t
  obtain ⟨f, hf, rfl, hs⟩ := h
  obtain ⟨size, he⟩ := entry_of_mem f hf
  refine ⟨f, rfl, size, he, hs, tlvOf_eq he value mask, ?_⟩
  rw [length_tlv f hs]
  omega

variable {ts : List OxmTriple}

theorem serializeFields_good (h : ∀ t ∈ ts, Good t) (buf : Bytes) (offset : Nat) :
    ∃ buf', serializeFields ts buf offset = .ok (buf', offset + (ts.map tlvOf).flatten.length) ∧
      (ts ≠ [] → buf' = splice buf offset (ts.map tlvOf).flatten) ∧ (ts = [] → buf' = buf) := by
  induction ts generalizing buf offset with
  | nil => exact ⟨buf, rfl, by simp, fun _ => rfl⟩
  | cons t ts ih =>
    obtain ⟨n, value, mask⟩ := t
    obtain ⟨f, hf, rfl, hs⟩ := h (n, value, mask) (by simp)
    obtain ⟨size, he⟩ := entry_of_mem f hf
    obtain ⟨buf', hser, hne, hnil⟩ := ih (fun t ht => h t (mem_cons_of_mem _ ht))
      (splice buf offset (f.tlv value mask)) (offset + (f.tlv value mask).length)
    refine ⟨buf', ?_, fun _ => ?_, by simp⟩
    · rw [serializeFields, oxmSerialize_tlv he hs]
      simp only [hser, map_cons, flatten_cons, length_append, tlvOf_eq he, Nat.add_assoc, ok_bind]
    · simp only [map_cons, flatten_cons, tlvOf_eq he]
      rcases Decidable.eq_or_ne ts [] with rfl | hts
      · simp [hnil rfl]
      · rw [hne hts, splice_splice]

/-- The length of a match without its padding. -/
def wireLen (ts : List OxmTriple) : Nat := 4 + (ts.map tlvOf).flatten.length

/-- A match on the wire. -/
def wire (ts : List OxmTriple) : Bytes :=
  encode [H, H] [.int ofpmtOxm, .int (wireLen ts)] ++ (ts.map tlvOf).flatten ++
    zeros (roundUp (wireLen ts) 8 - wireLen ts)

theorem length_wire (ts : List OxmTriple) : (wire ts).length = roundUp (wireLen ts) 8 := by
  have h := le_roundUp (wireLen ts) (show 0 < 8 by decide)
  simp only [wire, encode, length_append, length_beEncode, length_zeros, length_nil]
  unfold wireLen at h ⊢
  omega

theorem serialize_good {self : OFPMatch}
    (hfields : self.fields2.mapM (fun (k, uv) => oxmFromUser conv k uv) = .ok ts)
    (h : ∀ t ∈ ts, Good t) (hlen : wireLen ts < 65536) (buf : Bytes) (offset : Nat) :
    self.serialize conv buf offset =
      .ok (splice buf offset (wire ts), (wire ts).length,
        { self with length := some (wireLen ts) }) := by
  obtain ⟨buf', hser, hne, hnil⟩ := serializeFields_good h buf (offset + 4)
  have hfit : fits [H, H] [.int ofpmtOxm, .int (wireLen ts)] = true := by
    simpa [fits, ofpmtOxm] using hlen
  have hhdr : splice buf' offset (encode [H, H] [.int ofpmtOxm, .int (wireLen ts)]) =
      splice buf offset (encode [H, H] [.int ofpmtOxm, .int (wireLen ts)] ++
        (ts.map tlvOf).flatten) := by
    rcases Decidable.eq_or_ne ts [] with rfl | hts
    · simp [hnil rfl]
    · rw [hne hts, ← splice_splice_before]
      rfl
  have hoff : offset + 4 + (ts.map tlvOf).flatten.length - offset = wireLen ts := by
    unfold wireLen
    omega
  have hpad : encode [x (roundUp (wireLen ts) 8 - wireLen ts)] [] =
      zeros (roundUp (wireLen ts) 8 - wireLen ts) := by simp [encode]
  rw [serialize, hfields]
  simp only [bind, Except.bind, calcsize, Item.size, Nat.add_zero, Nat.reduceAdd, hser, hoff]
  rw [msgPackInto_ok hfit]
  simp only [hhdr]
  rw [msgPackInto_ok rfl]
  simp only [hpad, pure_eq_ok]
  have hfinal := splice_splice buf offset
    (encode [H, H] [.int ofpmtOxm, .int (wireLen ts)] ++ (ts.map tlvOf).flatten)
    (zeros (roundUp (wireLen ts) 8 - wireLen ts))
  rw [length_append, ← Nat.add_assoc] at hfinal
  rw [length_wire, Nat.add_sub_of_le (le_roundUp _ (by decide)), wire, ← hfinal]
  rfl

theorem parser_wire {fields2 : List (OxmName × UserValue)} (h : ∀ t ∈ ts, Good t)
    (hlen : wireLen ts < 65536)
    (hto : ts.mapM (fun (n, v, m) => oxmToUser conv n v m) = .ok fields2) {offset : Nat}
    (hat : At buf offset (wire ts)) :
    ∃ fields, Py.Ends (parser conv buf offset)
      (.ok ⟨ofpmtOxm, some (wireLen ts), fields, fields2⟩) := by
  have hhdr : At buf offset (encode [H, H] [.int ofpmtOxm, .int (wireLen ts)]) := hat.left.left
  have hbody : At buf (offset + 4) (ts.map tlvOf).flatten := hat.left.right
  have hex : exact [H, H] [.int ofpmtOxm, .int (wireLen ts)] = true := by
    simpa [Struct.exact, ofpmtOxm] using hlen
  have hrest : wireLen ts - 4 = (ts.map tlvOf).flatten.length := by
    unfold wireLen
    omega
  obtain ⟨fields, hold, -⟩ : ∃ xs, Py.Ends (parserOld buf (offset + 4) (wireLen ts - 4)) (.ok xs) ∧
      List.Forall₂ (fun _ _ => True) ts xs := by
    rw [hrest]
    refine Py.ends_span_at ts ?_ hbody
    intro t ht o hato
    obtain ⟨f, hf, size, he, hs, htlv, hpos⟩ := (h t ht).entry
    rw [htlv] at hato ⊢
    obtain ⟨field, hfield, hflen⟩ := matchFieldParser_tlv he hs hato
    refine ⟨hpos, field, ?_, trivial⟩
    rw [← hflen]
    exact Py.Ends.bind (Py.ends_lift.2 hfield) (Py.ends_pure.2 rfl)
  obtain ⟨xs, hnew, hxs⟩ : ∃ xs,
      Py.Ends (parserFields conv buf (offset + 4) (wireLen ts - 4)) (.ok xs) ∧
      List.Forall₂ (fun (t : OxmTriple) x => oxmToUser conv t.1 t.2.1 t.2.2 = .ok x) ts xs := by
    rw [hrest]
    refine Py.ends_span_at ts ?_ hbody
    intro t ht o hato
    obtain ⟨f, hf, size, he, hs, htlv, hpos⟩ := (h t ht).entry
    rw [htlv] at hato ⊢
    obtain ⟨uv, hto, -⟩ := oxmToUser_oxmFromUser conv he hs
    rw [hf] at hto
    refine ⟨hpos, _, ?_, hto⟩
    refine Py.Ends.bind (Py.ends_lift.2 (oxmParse_tlv he hs hato)) ?_
    rw [hf]
    exact Py.Ends.bind (Py.ends_lift.2 hto) (Py.ends_pure.2 rfl)
  have heq : xs = fields2 := Except.ok.inj ((mapM_of_forall₂ hxs).symm.trans hto)
  subst heq
  refine ⟨fields, ?_⟩
  refine Py.Ends.bind (Py.ends_lift.2 (unpackFrom_at hex (by decide) hhdr)) ?_
  exact hold.bind (hnew.bind (Py.ends_pure.2 rfl))

/-! ## Matches built from keyword arguments -/

/-- A keyword argument for a field of the table whose value (and mask) can be converted. -/
def KwargOk (conv : Addrconv) (kw : OxmName × UserValue) : Prop :=
  ∃ f ∈ oxmTypes, kw.1 = .named f.name ∧ f.Accepts conv kw.2

theorem length_tlvOf_le (h : Good t) : (tlvOf t).length ≤ 42 := by
  obtain ⟨f, -, size, he, hs, htlv, -⟩ := h.entry
  have hsize : size = t.2.1.length := Option.some.inj (he.size_eq.symm.trans hs.1)
  have hle := he.le
  have hexp := f.length_expHdr_le
  rw [htlv, length_tlv f hs]
  rcases Nat.le_one_iff_eq_zero_or_eq_one.1 (maskBit_le t.2.2) with hm | hm <;> rw [hm] <;> omega

/-- Distinct fields of the table never fill the 16-bit length of a match. -/
theorem wireLen_lt (h : ∀ t ∈ ts, Good t) (hnodup : (ts.map (·.1)).Nodup) : wireLen ts < 65536 := by
  have hcount : ts.length ≤ oxmTypes.length := by
    have hsub : ts.map (·.1) ⊆ oxmTypes.map (·.num) := by
      intro n hn
      obtain ⟨t, ht, rfl⟩ := mem_map.1 hn
      obtain ⟨f, hf, hnum, -⟩ := h t ht
      exact mem_map.2 ⟨f, hf, hnum.symm⟩
    have hle := (subperm_of_subset hnodup hsub).length_le
    simpa using hle
  have hsum : (ts.map tlvOf).flatten.length ≤ ts.length * 42 := by
    clear hcount hnodup
    induction ts with
    | nil => simp
    | cons t ts ih =>
      have h1 := length_tlvOf_le (h t (by simp))
      have h2 := ih fun t' ht' => h t' (mem_cons_of_mem t ht')
      simp only [map_cons, flatten_cons, length_append, length_cons]
      omega
  have hconst : oxmTypes.length = 65 := by decide
  unfold wireLen
  omega

/-- The name of a numbered field. -/
def nameOf (num : OxmNum) : OxmName :=
  match numToField num with
  | some f => .named f.name
  | none => .field 0

/-- Number, value and mask that a keyword argument stands for. -/
def resolve (conv : Addrconv) (kw : OxmName × UserValue) : PyResult OxmTriple := do
  let (k, v) ← oxmNormalizeUser conv kw.1 kw.2
  oxmFromUser conv k v

/-- The field of a keyword argument that can be converted. -/
def tripleOf (conv : Addrconv) (kw : OxmName × UserValue) : OxmTriple :=
  match resolve conv kw with
  | .ok t => t
  | .error _ => (.basic 0, [], none)

/-- The fields of the arguments in the order in which they are written. -/
def sortedTriples (conv : Addrconv) (kwargs : List (OxmName × UserValue)) : List OxmTriple :=
  (kwargs.map (tripleOf conv)).mergeSort fun x y => x.1.sortKey ≤ y.1.sortKey

theorem KwargOk.resolve {kw : OxmName × UserValue} (h : KwargOk conv kw) :
    ∃ kw', oxmNormalizeUser conv kw.1 kw.2 = .ok kw' ∧
      oxmFromUser conv kw'.1 kw'.2 = .ok (tripleOf conv kw) ∧
      Good (tripleOf conv kw) ∧ nameOf (tripleOf conv kw).1 = kw.1 := by
  obtain ⟨name, uv⟩ := kw
  obtain ⟨f, hf, rfl, hacc⟩ := h
  obtain ⟨size, he⟩ := entry_of_mem f hf
  obtain ⟨uv', value, mask, hnorm, hfrom, hs⟩ := oxmNormalizeUser_accepts he hacc
  have htriple : tripleOf conv (.named f.name, uv) = (f.num, value, mask) := by
    simp [tripleOf, OFPMatch.resolve, hnorm, hfrom]
  rw [htriple]
  exact ⟨_, hnorm, hfrom, ⟨f, hf, rfl, hs⟩, by simp [nameOf, he.byNum]⟩

theorem Good.user (conv : Addrconv) (h : Good t) :
    ∃ kuv, oxmToUser conv t.1 t.2.1 t.2.2 = .ok kuv ∧ oxmFromUser conv kuv.1 kuv.2 = .ok t := by
  obtain ⟨f, hf, size, he, hs, -, -⟩ := h.entry
  obtain ⟨uv, hto, hfrom⟩ := oxmToUser_oxmFromUser conv he hs
  rw [hf] at hto hfrom
  exact ⟨_, hto, hfrom⟩

/-- Good fields as pairs of names and values, and back. -/
theorem exists_pairs (conv : Addrconv) (h : ∀ t ∈ ts, Good t) :
    ∃ fields2, ts.mapM (fun (n, v, m) => oxmToUser conv n v m) = .ok fields2 ∧
      fields2.mapM (fun (k, uv) => oxmFromUser conv k uv) = .ok ts := by
  choose! pair hto hback using fun t (ht : Good t) => ht.user conv
  refine ⟨ts.map pair, mapM_eq_map fun t ht => hto t (h t ht), ?_⟩
  have hb : ts.mapM ((fun kuv => oxmFromUser conv kuv.1 kuv.2) ∘ pair) = .ok (ts.map id) :=
    mapM_eq_map fun t ht => hback t (h t ht)
  rw [map_id] at hb
  rw [mapM_map]
  exact hb

variable {kwargs : List (OxmName × UserValue)}

theorem good_of_mem_sortedTriples (h : ∀ kw ∈ kwargs, KwargOk conv kw) :
    ∀ t ∈ sortedTriples conv kwargs, Good t := by
  intro t ht
  obtain ⟨kw, hkw, rfl⟩ := mem_map.1 ((mergeSort_perm _ _).mem_iff.1 ht)
  obtain ⟨-, -, -, hgood, -⟩ := (h kw hkw).resolve
  exact hgood

/-- The fields of arguments with distinct names have distinct numbers. -/
theorem nodup_nums (hnodup : (kwargs.map (·.1)).Nodup) (h : ∀ kw ∈ kwargs, KwargOk conv kw) :
    ((kwargs.map (tripleOf conv)).map (·.1)).Nodup := by
  apply List.Nodup.of_map nameOf
  have hnames : ((kwargs.map (tripleOf conv)).map (·.1)).map nameOf = kwargs.map (·.1) := by
    rw [map_map, map_map]
    refine map_congr_left fun kw hkw => ?_
    obtain ⟨-, -, -, -, hname⟩ := (h kw hkw).resolve
    exact hname
  rwa [hnames]

theorem nodup_nums_sortedTriples (hnodup : (kwargs.map (·.1)).Nodup)
    (h : ∀ kw ∈ kwargs, KwargOk conv kw) :
    ((sortedTriples conv kwargs).map (·.1)).Nodup := by
  have hperm : (sortedTriples conv kwargs).Perm (kwargs.map (tripleOf conv)) :=
    mergeSort_perm _ _
  exact (hperm.map (·.1)).nodup_iff.2 (nodup_nums hnodup h)

/-- What the constructor makes of valid keyword arguments: their fields, in the order of the sort.
-/
theorem ofKwargs_ok (h : ∀ kw ∈ kwargs, KwargOk conv kw) :
    ∃ fields2, ofKwargs conv kwargs = .ok ⟨ofpmtOxm, none, [], fields2⟩ ∧
      (sortedTriples conv kwargs).mapM (fun (n, v, m) => oxmToUser conv n v m) = .ok fields2 ∧
      fields2.mapM (fun (k, uv) => oxmFromUser conv k uv) = .ok (sortedTriples conv kwargs) := by
  choose! norm hnorm hfrom hgood hname using fun kw hkw => (h kw hkw).resolve
  obtain ⟨fields2, hto, hback⟩ := exists_pairs conv (good_of_mem_sortedTriples h)
  refine ⟨fields2, ?_, hto, hback⟩
  have h1 : kwargs.mapM (fun (k, v) => oxmNormalizeUser conv k v) = .ok (kwargs.map norm) :=
    mapM_eq_map hnorm
  have h2 : (kwargs.map norm).mapM (fun (k, v) => oxmFromUser conv k v) =
      .ok (kwargs.map (tripleOf conv)) := by
    rw [mapM_map]
    exact mapM_eq_map hfrom
  have h3 : ((kwargs.map (tripleOf conv)).mergeSort fun x y => x.1.sortKey ≤ y.1.sortKey).mapM
      (fun x => oxmToUser conv x.1 x.2.1 x.2.2) = .ok fields2 := hto
  rw [ofKwargs, h1]
  simp only [h2, ok_bind]
  rw [h3]
  rfl

/-- A match built from keyword arguments over the fields of the table, serialized into any buffer
at any offset: the bytes written are as many as announced, a multiple of eight that covers the
length, and the parser gives back the same names and values and the length without padding. -/
theorem match_roundTrip (conv : Addrconv) (kwargs : List (OxmName × UserValue))
    (hnodup : (kwargs.map (·.1)).Nodup) (h : ∀ kw ∈ kwargs, KwargOk conv kw) :
    ∃ m, ofKwargs conv kwargs = .ok m ∧ ∀ buf offset, ∃ bytes len m' parsed,
      m.serialize conv buf offset = .ok (splice buf offset bytes, bytes.length, m') ∧
      bytes.length = roundUp len 8 ∧ m'.length = some len ∧
      Py.Ends (parser conv (splice buf offset bytes) offset) (.ok parsed) ∧
      parsed.fields2 = m.fields2 ∧ parsed.length = some len := by
  obtain ⟨fields2, hm, hto, hfrom⟩ := ofKwargs_ok h
  have hgood := good_of_mem_sortedTriples h
  have hlen := wireLen_lt hgood (nodup_nums_sortedTriples hnodup h)
  refine ⟨_, hm, fun buf offset => ?_⟩
  obtain ⟨fields, hparse⟩ := parser_wire hgood hlen hto
    (at_splice buf offset (wire (sortedTriples conv kwargs)))
  exact ⟨_, _, _, _, serialize_good hfrom hgood hlen buf offset, length_wire _, rfl, hparse,
    rfl, rfl⟩

/-- The text of an address is the text with its bytes as characters. -/
def latin1 (size : Nat) : AddressConverter size where
  textToBin
    | .text t =>
      if t.toList.length = size then .ok (t.toList.map fun c => UInt8.ofNat c.toNat)
      else .error .valueError
    | _ => .error .typeError
  binToText b := String.ofList (b.map fun v => Char.ofNat v.toNat)
  length_textToBin u b h := by
    cases u with
    | text t =>
      simp only at h
      split at h
      · cases h
        simpa using ‹_›
      · cases h
    | int i => cases h
    | base64 b => cases h
  textToBin_binToText b hb := by
    have hchar : ∀ v : UInt8, UInt8.ofNat (Char.ofNat v.toNat).toNat = v := by
      intro v
      have hv := v.toNat_lt
      have hvalid : v.toNat.isValidChar := Or.inl (by omega)
      rw [Char.ofNat, dif_pos hvalid]
      exact UInt8.ofNat_toNat
    simp only [String.toList_ofList, length_map, hb, if_true, map_map]
    congr 1
    exact (map_congr_left fun v _ => hchar v).trans (map_id b)

def latin1Addrconv : Addrconv := ⟨latin1 6, latin1 4, latin1 16⟩

/-- A match on the Ethernet type and on a masked Beba state, written behind three bytes. -/
theorem match_roundTrip_state :
    ∃ m, ofKwargs latin1Addrconv
        [(.named "state", .int 5, some (.int 7)), (.named "eth_type", .int 0x800, none)] = .ok m ∧
      ∃ bytes len m' parsed,
        m.serialize latin1Addrconv [1, 2, 3] 3 =
          .ok (splice [1, 2, 3] 3 bytes, bytes.length, m') ∧
        bytes.length = roundUp len 8 ∧ m'.length = some len ∧
        Py.Ends (parser latin1Addrconv (splice [1, 2, 3] 3 bytes) 3) (.ok parsed) ∧
        parsed.fields2 = m.fields2 ∧ parsed.length = some len := by
  have hkw : ∀ kw ∈ [(OxmName.named "state", UserVal.int 5, some (UserVal.int 7)),
      (OxmName.named "eth_type", UserVal.int 0x800, none)], KwargOk latin1Addrconv kw := by
    intro kw hkw
    rcases mem_cons.1 hkw with rfl | hkw
    · exact ⟨.bebaExperimenter "state" 1 (.int 4), by decide, rfl, ⟨_, rfl⟩, fun m hm =>
        ⟨beEncode 4 7, by cases hm; rfl⟩⟩
    · cases mem_singleton.1 hkw
      exact ⟨.openFlowBasic "eth_type" 5 (.int 2), by decide, rfl, ⟨_, rfl⟩, fun m hm => nomatch hm⟩
  obtain ⟨m, hm, hall⟩ := match_roundTrip latin1Addrconv _ (by decide) hkw
  exact ⟨m, hm, hall [1, 2, 3] 3⟩

end OFPMatch

end BebaCtrl
