import BebaCtrl.Beba.OvsDatapath
import BebaCtrl.Beba.StateStats

/-!
# Keys of state entries as text

`state_entry_key_to_str` prints the key of a state entry field by field. `get_field_string` has a
branch for each header constant with a width of its own, while `send_msg` of the Open vSwitch
wrapper cuts a key by the payload lengths of the headers. `rendersKey_iff` says for which lookup
fields the two agree and the fields are separated by one comma each.
-/

namespace BebaCtrl

open Struct OVSDatapath List Option

/-! ## The text of a field -/

/-- How a branch of `get_field_string` prints its part of the key. -/
inductive FieldText where
  /-- `struct.unpack('<I', key[offset:offset+length])[0] & mask` and the like -/
  | uint (length : Nat) (mask : Option Nat)
  | mac
  | ipv4
  /-- words that are appended to a list -/
  | ipv6
  /-- words that are assigned to the positions of an empty list -/
  | ipv6Assign
  deriving DecidableEq, Repr

def FieldText.length : FieldText → Nat
  | .uint length _ => length
  | .mac => 6
  | .ipv4 => 4
  | .ipv6 | .ipv6Assign => 16

/-- The branches of `get_field_string`, with the names they print. -/
def fieldTexts : List (Nat × String × FieldText) :=
  [(oxmTlvHeader 0 4, "in_port", .uint 4 none),
    (oxmTlvHeader 1 4, "in_phy_port", .uint 4 (some 0x0fff)),
    (oxmTlvHeader 6 2, "vlan_vid", .uint 2 none),
    (oxmTlvHeader 7 1, "vlan_pcp", .uint 1 (some 0x7)),
    (oxmTlvHeader 5 2, "eth_type", .uint 2 none), (oxmTlvHeader 13 2, "tcp_src", .uint 2 none),
    (oxmTlvHeader 14 2, "tcp_dst", .uint 2 none), (oxmTlvHeader 40 2, "tcp_flags", .uint 2 none),
    (oxmTlvHeader 15 2, "udp_src", .uint 2 none), (oxmTlvHeader 16 2, "udp_dst", .uint 2 none),
    (oxmTlvHeader 17 2, "sctp_src", .uint 2 none), (oxmTlvHeader 18 2, "sctp_dst", .uint 2 none),
    (oxmTlvHeader 4 6, "eth_src", .mac), (oxmTlvHeader 3 6, "eth_dst", .mac),
    (oxmTlvHeader 11 4, "ipv4_src", .ipv4), (oxmTlvHeader 12 4, "ipv4_dst", .ipv4),
    (oxmTlvHeader 10 1, "ip_proto", .uint 1 none),
    (oxmTlvHeader 8 1, "ip_dscp", .uint 1 (some 0x3f)),
    (oxmTlvHeader 9 1, "ip_ecn", .uint 1 (some 0x3)),
    (oxmTlvHeader 19 1, "icmpv4_type", .uint 1 none),
    (oxmTlvHeader 20 1, "icmpv4_code", .uint 1 none), (oxmTlvHeader 24 6, "arp_sha", .mac),
    (oxmTlvHeader 25 6, "arp_tha", .mac), (oxmTlvHeader 22 4, "arp_spa", .ipv4),
    (oxmTlvHeader 23 4, "arp_tpa", .ipv4), (oxmTlvHeader 21 2, "arp_op", .uint 2 none),
    (oxmTlvHeader 26 16, "nw_src_ipv6", .ipv6Assign), (oxmTlvHeader 27 16, "nw_dst_ipv6", .ipv6),
    (oxmTlvHeader 31 16, "ipv6_nd_target", .ipv6Assign), (oxmTlvHeader 32 6, "ipv6_nd_sll", .mac),
    (oxmTlvHeader 33 6, "ipv6_nd_tll", .mac),
    (oxmTlvHeader 28 4, "ipv6_flow_label", .uint 4 (some 0x000fffff)),
    (oxmTlvHeader 29 1, "icmpv6_type", .uint 1 none),
    (oxmTlvHeader 30 1, "icmpv6_code", .uint 1 none),
    (oxmTlvHeader 34 4, "mpls_label", .uint 4 (some 0x000fffff)),
    (oxmTlvHeader 35 1, "mpls_tc", .uint 1 (some 0x3)),
    (oxmTlvHeader 36 1, "mpls_bos", .uint 1 (some 0x1)),
    (oxmTlvHeader 37 3, "pbb_isid", .uint 4 none), (oxmTlvHeader 38 8, "tunnel_id", .uint 8 none),
    (oxmTlvHeader 39 2, "ext_hdr", .uint 2 none)]

/-- `struct.unpack('<…', array('B', key[offset:offset+length]))` -/
def unpackLe (key : List Nat) (offset length : Nat) : PyResult Nat :=
  let bytes := (key.drop offset).take length
  if bytes.length = length then .ok (bytes.foldr (fun b acc => b + 256 * acc) 0)
  else .error .structError

/-- `key[i]` -/
def keyItem (key : List Nat) (i : Nat) : PyResult Nat :=
  match key[i]? with
  | some b => .ok b
  | none => .error .indexError

/-- `format(value, 'x')` -/
def hexText (value : Nat) : String := String.ofList (Nat.toDigits 16 value)

namespace FieldText

def render (key : List Nat) (offset : Nat) : FieldText → PyResult String
  | .uint length mask => do
    let value ← unpackLe key offset length
    return toString (match mask with
      | none => value
      | some mask => value &&& mask)
  | .mac => do
    let bytes ← (List.range 6).mapM fun i => keyItem key (offset + i)
    return ":".intercalate (bytes.map hex2)
  | .ipv4 => do
    let bytes ← (List.range 4).mapM fun i => keyItem key (offset + i)
    return ".".intercalate (bytes.map toString)
  | .ipv6 => do
    let words ← (List.range 8).mapM fun q => unpackLe key (offset + 2 * q) 2
    return ":".intercalate (words.map hexText)
  | .ipv6Assign => do
    let _ ← unpackLe key offset 2
    -- `value[0] = …` for an empty list
    throw .indexError

end FieldText

/-- The text of a field and the bytes it takes; a header without a branch gives `None`. -/
def getFieldString (field : Nat) (key : List Nat) (keyCount offset : Nat) :
    PyResult (Option (String × Nat)) :=
  match fieldTexts.lookup field with
  | none => .ok none
  | some (name, text) =>
    if keyCount ≠ 0 then do
      let value ← text.render key offset
      return some (name ++ "=\"" ++ value ++ "\"", text.length)
    else .ok (some (name ++ "=*", 0))

/-- The loop of `state_entry_key_to_str`; `last` is `fields[field_count - 1]`. -/
def keyToStr (key : List Nat) (keyCount last : Nat) : List Nat → Nat → String → PyResult String
  | [], _, s => .ok s
  | field :: fields, offset, s => do
    let some (string, fieldLen) ← getFieldString field key keyCount offset | throw .typeError
    let s := s ++ string
    let s := if field ≠ last then s ++ "," else s
    keyToStr key keyCount last fields (offset + fieldLen) s

def stateEntryKeyToStr (fields : List Nat) (fieldCount : Nat) (entry : OFPStateEntry) :
    PyResult String :=
  match fields.take fieldCount with
  | [] => .ok ""
  | field :: rest =>
    match fields[fieldCount - 1]? with
    | some last => keyToStr entry.key entry.keyCount last (field :: rest) 0 ""
    -- the first field is printed, then the last one is looked up
    | none => do
      let some _ ← getFieldString field entry.key entry.keyCount 0 | throw .typeError
      throw .indexError

/-! ## The slices of a key -/

/-- The key cut as `send_msg` cuts it: by the payload lengths of the lookup fields. -/
def cutKey (data : Bytes) : List Nat → Nat → PyResult (List (List Nat))
  | [], _ => .ok []
  | field :: fields, offset => do
    let fieldBytesNum ← oxmLen field
    let key ← unpackEach B data offset fieldBytesNum
    let rest ← cutKey data fields (offset + fieldBytesNum)
    return key :: rest

/-- The payload length of a header. -/
def payload (field : Nat) : Nat := field &&& 0xff

/-- The slices of a key by payload lengths. -/
def slices (key : List Nat) : List Nat → Nat → List (List Nat)
  | [], _ => []
  | field :: fields, offset =>
    (key.drop offset).take (payload field) :: slices key fields (offset + payload field)

theorem unpackEach_bytes {data : Bytes} {offset n : Nat} (h : offset + n ≤ data.length) :
    unpackEach B data offset n = .ok (((data.map UInt8.toNat).drop offset).take n) := by
  induction n generalizing offset with
  | zero => simp [unpackEach]
  | succ n ih =>
    have hlt : offset < data.length := by omega
    have hslice : slice data offset (offset + 1) = [data[offset]] := by
      rw [slice, drop_eq_getElem_cons hlt, Nat.add_sub_cancel_left]
      rfl
    have hunpack : unpack [B] (slice data offset (offset + 1)) = .ok [.int data[offset].toNat] := by
      rw [hslice, unpack, if_pos (show [data[offset]].length = calcsize [B] from rfl)]
      simp [decode, beDecode]
    have hdrop : (data.map UInt8.toNat).drop offset =
        data[offset].toNat :: (data.map UInt8.toNat).drop (offset + 1) := by
      rw [drop_eq_getElem_cons (by simpa using hlt), getElem_map]
    simp [unpackEach, Item.size, hunpack, ih (show offset + 1 + n ≤ data.length by omega), hdrop]

theorem cutKey_eq {data : Bytes} {fields : List Nat} {offset : Nat}
    (hknown : ∀ f ∈ fields, (fieldsHeaders.lookup f).isSome)
    (hlen : offset + (fields.map payload).sum ≤ data.length) :
    cutKey data fields offset = .ok (slices (data.map UInt8.toNat) fields offset) := by
  induction fields generalizing offset with
  | nil => rfl
  | cons field fields ih =>
    rw [map_cons, sum_cons] at hlen
    obtain ⟨cls, hcls⟩ := isSome_iff_exists.1 (hknown field mem_cons_self)
    have hoxm : oxmLen field = .ok (payload field) := by rw [oxmLen, hcls, payload]
    have htail := ih (fun f hf => hknown f (mem_cons_of_mem _ hf))
      (show offset + payload field + (fields.map payload).sum ≤ data.length by omega)
    have hkey := unpackEach_bytes (show offset + payload field ≤ data.length by omega)
    simp [cutKey, hoxm, hkey, htail, slices]

theorem length_of_mem_slices {key : List Nat} {fields : List Nat} {offset : Nat}
    (hlen : offset + (fields.map payload).sum ≤ key.length) :
    List.Forall₂ (fun f s => s.length = payload f) fields (slices key fields offset) := by
  induction fields generalizing offset with
  | nil => exact .nil
  | cons field fields ih =>
    rw [map_cons, sum_cons] at hlen
    refine .cons ?_ (ih (by omega))
    rw [length_take, length_drop]
    omega

/-! ## Texts depend on their slice only -/

section Local

variable {key : List Nat} {offset n : Nat}

theorem unpackLe_slice {a length : Nat} (h : a + length ≤ n) :
    unpackLe ((key.drop offset).take n) a length = unpackLe key (offset + a) length := by
  have hbytes : (((key.drop offset).take n).drop a).take length =
      (key.drop (offset + a)).take length := by
    rw [drop_take, drop_drop, take_take, Nat.min_eq_left (by omega)]
  simp only [unpackLe, hbytes]

theorem keyItem_slice {i : Nat} (h : i < n) :
    keyItem ((key.drop offset).take n) i = keyItem key (offset + i) := by
  simp [keyItem, getElem?_take_of_lt h]

theorem mapM_keyItem_slice (n : Nat) :
    ((List.range n).mapM fun i => keyItem ((key.drop offset).take n) (0 + i)) =
      (List.range n).mapM fun i => keyItem key (offset + i) := by
  refine mapM_congr fun i hi => ?_
  rw [Nat.zero_add, keyItem_slice (mem_range.1 hi)]

/-- The text of a part of the key is that of the slice on its own. -/
theorem FieldText.render_slice (text : FieldText) (key : List Nat) (offset : Nat) :
    text.render ((key.drop offset).take text.length) 0 = text.render key offset := by
  unfold render FieldText.length
  cases text with
  | uint length mask =>
    have hle : 0 + length ≤ length := by omega
    simp [unpackLe_slice hle]
  | mac => simp only [mapM_keyItem_slice]
  | ipv4 => simp only [mapM_keyItem_slice]
  | ipv6 =>
    have hwords :
        ((List.range 8).mapM fun q => unpackLe ((key.drop offset).take 16) (0 + 2 * q) 2) =
        (List.range 8).mapM fun q => unpackLe key (offset + 2 * q) 2 := by
      refine mapM_congr fun q hq => ?_
      have hlt := mem_range.1 hq
      rw [Nat.zero_add, unpackLe_slice (by omega)]
    simp only [hwords]
  | ipv6Assign =>
    have hle : 0 + 2 ≤ 16 := by omega
    simp [unpackLe_slice hle]

theorem exists_unpackLe {length : Nat} (h : offset + length ≤ key.length) :
    ∃ value, unpackLe key offset length = .ok value := by
  refine ⟨_, if_pos ?_⟩
  rw [length_take, length_drop]
  omega

theorem exists_keyItem {i : Nat} (h : i < key.length) : ∃ b, keyItem key i = .ok b :=
  ⟨key[i], by simp [keyItem, h]⟩

/-- A branch that does not assign to an empty list prints every slice of its width. -/
theorem FieldText.exists_render {text : FieldText} (htext : text ≠ .ipv6Assign)
    (h : offset + text.length ≤ key.length) : ∃ value, text.render key offset = .ok value := by
  have hitems (n : Nat) (hn : offset + n ≤ key.length) :
      ∃ bytes, ((List.range n).mapM fun i => keyItem key (offset + i)) = .ok bytes :=
    exists_mapM fun i hi => exists_keyItem (by have := mem_range.1 hi; omega)
  cases text with
  | uint length mask => exact exists_bind_pure.2 (exists_unpackLe h)
  | mac => exact exists_bind_pure.2 (hitems 6 h)
  | ipv4 => exact exists_bind_pure.2 (hitems 4 h)
  | ipv6 =>
    have h16 : offset + 16 ≤ key.length := h
    refine exists_bind_pure.2 (exists_mapM fun q hq => exists_unpackLe ?_)
    have hlt := mem_range.1 hq
    omega
  | ipv6Assign => exact absurd rfl htext

theorem FieldText.render_ipv6Assign (key : List Nat) (offset : Nat) (value : String) :
    FieldText.ipv6Assign.render key offset ≠ .ok value := by
  intro h
  obtain ⟨_, -, h⟩ := bind_eq_ok.1 h
  cases h

end Local

/-! ## Fields that are printed -/

/-- The header has a branch that prints its payload. -/
def Printed (field : Nat) : Prop :=
  ∃ name text, fieldTexts.lookup field = some (name, text) ∧ text ≠ .ipv6Assign ∧
    text.length = payload field

variable {field : Nat}

theorem printed_iff_any :
    Printed field ↔ (fieldTexts.lookup field).any
      fun p => decide (p.2 ≠ .ipv6Assign ∧ p.2.length = payload field) := by
  simp [Printed, Option.any_eq_true]

instance (field : Nat) : Decidable (Printed field) := decidable_of_iff _ printed_iff_any.symm

/-- The texts of `field` for a slice of the key. -/
def PrintsSlice (field : Nat) (slice : List Nat) (text : String) : Prop :=
  getFieldString field slice slice.length 0 = .ok (some (text, slice.length))

theorem Printed.of_printsSlice {slice : List Nat} {text : String}
    (hlen : slice.length = payload field) (hpos : 0 < payload field)
    (h : PrintsSlice field slice text) : Printed field := by
  unfold PrintsSlice getFieldString at h
  cases hlookup : fieldTexts.lookup field with
  | none => simp [hlookup] at h
  | some p =>
    obtain ⟨name, kind⟩ := p
    simp only [hlookup, if_pos (show slice.length ≠ 0 by omega)] at h
    obtain ⟨value, hvalue, h⟩ := bind_eq_ok.1 h
    simp only [Except.ok.injEq, some.injEq, Prod.mk.injEq, pure_eq_ok] at h
    refine ⟨name, kind, hlookup, ?_, h.2.trans hlen⟩
    rintro rfl
    exact FieldText.render_ipv6Assign _ _ _ hvalue

/-- A field that is printed takes its slice of a longer key, and prints it as it does on its own. -/
theorem Printed.getFieldString (h : Printed field) (hpos : 0 < payload field) {key : List Nat}
    {keyCount offset : Nat} (hcount : keyCount ≠ 0) (hlen : offset + payload field ≤ key.length) :
    ∃ text, BebaCtrl.getFieldString field key keyCount offset = .ok (some (text, payload field)) ∧
      PrintsSlice field ((key.drop offset).take (payload field)) text := by
  obtain ⟨name, kind, hlookup, hkind, hwidth⟩ := h
  obtain ⟨value, hvalue⟩ := FieldText.exists_render hkind (hwidth ▸ hlen)
  have hslice := kind.render_slice key offset
  have hslicelen : ((key.drop offset).take (payload field)).length = payload field := by
    rw [length_take, length_drop]
    omega
  rw [hvalue, hwidth] at hslice
  refine ⟨name ++ "=\"" ++ value ++ "\"", ?_, ?_⟩
  · simp [BebaCtrl.getFieldString, hlookup, if_pos hcount, hvalue, hwidth]
  · simp only [PrintsSlice, BebaCtrl.getFieldString, hlookup, hslicelen, if_pos (show payload field
      ≠ 0 by omega), hslice, hwidth, ok_bind, pure_eq_ok]

/-! ## The loop -/

/-- The texts with the separators that the loop puts behind them. -/
def joinUnless (last : Nat) : List (Nat × String) → String
  | [] => ""
  | (field, text) :: rest => text ++ (if field ≠ last then "," else "") ++ joinUnless last rest

theorem keyToStr_of_printed {key : List Nat} {keyCount last : Nat} {fields : List Nat}
    {offset : Nat} (hprinted : ∀ f ∈ fields, Printed f) (hpos : ∀ f ∈ fields, 0 < payload f)
    (hcount : keyCount ≠ 0) (hlen : offset + (fields.map payload).sum ≤ key.length) (s : String) :
    ∃ texts, List.Forall₂ (fun p text => PrintsSlice p.1 p.2 text)
        (fields.zip (slices key fields offset)) texts ∧
      keyToStr key keyCount last fields offset s =
        .ok (s ++ joinUnless last (fields.zip texts)) := by
  induction fields generalizing offset s with
  | nil => exact ⟨[], .nil, by simp [keyToStr, joinUnless]⟩
  | cons field fields ih =>
    rw [map_cons, sum_cons] at hlen
    obtain ⟨text, htext, hslice⟩ := (hprinted field mem_cons_self).getFieldString
      (hpos field mem_cons_self) hcount (show offset + payload field ≤ key.length by omega)
    obtain ⟨texts, htexts, hloop⟩ := ih (fun f hf => hprinted f (mem_cons_of_mem _ hf))
      (fun f hf => hpos f (mem_cons_of_mem _ hf))
      (show offset + payload field + (fields.map payload).sum ≤ key.length by omega)
      (if field ≠ last then s ++ text ++ "," else s ++ text)
    refine ⟨text :: texts, .cons hslice htexts, ?_⟩
    simp only [keyToStr, htext, hloop, zip_cons_cons, joinUnless, ok_bind]
    split <;> simp [String.append_assoc]

section Commas

variable {last : Nat} {init : List (Nat × String)} {text : String}

theorem intercalate_cons_append_singleton (s t text : String) (texts : List String) :
    s.intercalate (t :: texts ++ [text]) = t ++ s ++ s.intercalate (texts ++ [text]) :=
  String.intercalate_cons_of_ne_nil (by simp)

theorem joinUnless_eq_intercalate (h : last ∉ init.map (·.1)) :
    joinUnless last (init ++ [(last, text)]) =
      ",".intercalate (init.map (·.2) ++ [text]) := by
  induction init with
  | nil => simp [joinUnless]
  | cons p init ih =>
    rw [map_cons, mem_cons, not_or] at h
    rw [map_cons, intercalate_cons_append_singleton, ← ih h.2, cons_append, joinUnless,
      if_pos (Ne.symm h.1)]

/-- A comma is missing behind each earlier field that is the last one again. -/
theorem length_joinUnless :
    (joinUnless last (init ++ [(last, text)])).length + (init.map (·.1)).count last =
      (",".intercalate (init.map (·.2) ++ [text])).length := by
  induction init with
  | nil => simp [joinUnless]
  | cons p init ih =>
    rw [map_cons, map_cons, intercalate_cons_append_singleton, cons_append, joinUnless, count_cons]
    have hcomma : ",".length = 1 := rfl
    by_cases hp : p.1 = last
    · simp [hp]
      omega
    · simp [hp]
      omega

theorem joinUnless_eq_iff :
    joinUnless last (init ++ [(last, text)]) = ",".intercalate (init.map (·.2) ++ [text]) ↔
      last ∉ init.map (·.1) := by
  refine ⟨fun h => ?_, joinUnless_eq_intercalate⟩
  have hlen := @length_joinUnless last init text
  rw [h] at hlen
  exact count_eq_zero.1 (by omega)

end Commas

/-! ## The whole key -/

/-- The key is printed slice by slice, with the slices that `send_msg` decodes, and with one comma
between the texts. -/
def RendersKey (fields : List Nat) (key : Bytes) (state : Nat) : Prop :=
  ∃ cut texts, cutKey key fields 0 = .ok cut ∧
    List.Forall₂ (fun p text => PrintsSlice p.1 p.2 text) (fields.zip cut) texts ∧
    stateEntryKeyToStr fields fields.length ⟨key.length, key.map UInt8.toNat, state⟩ =
      .ok (",".intercalate texts)

theorem payload_pos_of_known : ∀ p ∈ fieldsHeaders, 0 < payload p.1 := by decide +kernel

/-- The headers of the table that are printed. -/
theorem printed_iff_of_known : ∀ p ∈ fieldsHeaders,
    (Printed p.1 ↔ hasmask p.1 = false ∧ p.1 ≠ oxmTlvHeader 2 8 ∧ p.1 ≠ oxmTlvHeader 26 16 ∧
      p.1 ≠ oxmTlvHeader 31 16 ∧ p.1 ≠ oxmTlvHeader 37 3) := by
  decide +kernel

theorem exists_mem_of_known (h : (fieldsHeaders.lookup field).isSome) :
    ∃ cls, (field, cls) ∈ fieldsHeaders := by
  obtain ⟨cls, hcls⟩ := isSome_iff_exists.1 h
  obtain ⟨l₁, l₂, heq, -⟩ := lookup_eq_some_iff.1 hcls
  exact ⟨cls, by rw [heq]; simp⟩

theorem exists_of_forall₂_zip {α β γ : Type} {R : α → β → Prop} {S : α × β → γ → Prop} {xs : List α}
    {ys : List β} {zs : List γ} (hxy : List.Forall₂ R xs ys) (hz : List.Forall₂ S (xs.zip ys) zs) :
    ∀ x ∈ xs, ∃ y z, R x y ∧ S (x, y) z := by
  induction hxy generalizing zs with
  | nil => simp
  | cons hR _ ih =>
    cases hz with
    | cons hS hz =>
      rw [forall_mem_cons]
      exact ⟨⟨_, _, hR, hS⟩, ih hz⟩

theorem stateEntryKeyToStr_concat (init : List Nat) (last : Nat) (entry : OFPStateEntry) :
    stateEntryKeyToStr (init ++ [last]) (init ++ [last]).length entry =
      keyToStr entry.key entry.keyCount last (init ++ [last]) 0 "" := by
  have hlast : (init ++ [last])[(init ++ [last]).length - 1]? = some last := by simp
  unfold stateEntryKeyToStr
  rw [take_length, hlast]
  cases init <;> rfl

theorem zip_concat_eq {init : List Nat} {last : Nat} {texts : List String}
    (hlen : (init ++ [last]).length = texts.length) :
    ∃ ts text, texts = ts ++ [text] ∧ (init ++ [last]).zip texts = init.zip ts ++ [(last, text)] ∧
      (init.zip ts).map (·.1) = init ∧ (init.zip ts).map (·.2) = ts := by
  rcases eq_nil_or_concat texts with rfl | ⟨ts, text, rfl⟩
  · simp at hlen
  · have hlen' : init.length = ts.length := by simpa using hlen
    refine ⟨ts, text, concat_eq_append, ?_, map_fst_zip (by omega),
      map_snd_zip (by omega)⟩
    rw [concat_eq_append, zip_append hlen']
    rfl

theorem printsSlice_rightUnique :
    Relator.RightUnique fun (p : Nat × List Nat) text => PrintsSlice p.1 p.2 text := by
  intro p text text' h h'
  have heq := h.symm.trans h'
  simp only [Except.ok.injEq, some.injEq, Prod.mk.injEq] at heq
  exact heq.1

theorem rendersKey_concat_iff {init : List Nat} {last : Nat} {key : Bytes} (state : Nat)
    (hknown : ∀ f ∈ init ++ [last], (fieldsHeaders.lookup f).isSome)
    (hlen : key.length = ((init ++ [last]).map payload).sum) :
    RendersKey (init ++ [last]) key state ↔
      (∀ f ∈ init ++ [last], Printed f) ∧ last ∉ init := by
  have hpos : ∀ f ∈ init ++ [last], 0 < payload f := by
    intro f hf
    obtain ⟨cls, hmem⟩ := exists_mem_of_known (hknown f hf)
    exact payload_pos_of_known _ hmem
  have hkey : 0 + ((init ++ [last]).map payload).sum ≤ (key.map UInt8.toNat).length := by
    rw [length_map]
    omega
  have hcut := cutKey_eq hknown (show 0 + ((init ++ [last]).map payload).sum ≤ key.length by omega)
  have hslices := length_of_mem_slices hkey
  have hcount : key.length ≠ 0 := by
    have hlast := hpos last (by simp)
    rw [hlen, map_append, sum_append]
    simp only [map_singleton, sum_singleton]
    omega
  constructor
  · rintro ⟨cut, texts, hcut', htexts, hstr⟩
    obtain rfl : _ = cut := Except.ok.inj (hcut.symm.trans hcut')
    have hprinted : ∀ f ∈ init ++ [last], Printed f := by
      intro f hf
      obtain ⟨s, text, hs, hprints⟩ := exists_of_forall₂_zip hslices htexts f hf
      exact Printed.of_printsSlice hs (hpos f hf) hprints
    obtain ⟨texts', htexts', hloop⟩ :=
      @keyToStr_of_printed _ _ last _ _ hprinted hpos hcount hkey ""
    obtain rfl : texts' = texts :=
      right_unique_forall₂' printsSlice_rightUnique htexts' htexts
    have hlength := htexts.length_eq
    rw [length_zip, ← hslices.length_eq, Nat.min_self] at hlength
    obtain ⟨ts, text, rfl, hzip, hfst, hsnd⟩ := zip_concat_eq hlength
    rw [stateEntryKeyToStr_concat, hloop, hzip, String.empty_append, Except.ok.injEq] at hstr
    have hcommas := (@joinUnless_eq_iff last (init.zip ts) text)
    rw [hsnd, hfst] at hcommas
    exact ⟨hprinted, hcommas.1 hstr⟩
  · rintro ⟨hprinted, hlast⟩
    obtain ⟨texts, htexts, hloop⟩ :=
      @keyToStr_of_printed _ _ last _ _ hprinted hpos hcount hkey ""
    have hlength := htexts.length_eq
    rw [length_zip, ← hslices.length_eq, Nat.min_self] at hlength
    obtain ⟨ts, text, rfl, hzip, hfst, hsnd⟩ := zip_concat_eq hlength
    refine ⟨_, _, hcut, htexts, ?_⟩
    have hcommas := (@joinUnless_eq_iff last (init.zip ts) text)
    rw [hsnd, hfst] at hcommas
    rw [stateEntryKeyToStr_concat, hloop, hzip, String.empty_append, hcommas.2 hlast]

/-- A key is printed field by field exactly when its fields are unmasked and none of them is the
metadata, the IPv6 source, the target of a neighbour discovery or the service instance of a provider
backbone bridge, and the last field occurs only once. -/
theorem rendersKey_iff {fields : List Nat} {key : Bytes} (state : Nat)
    (hknown : ∀ f ∈ fields, (fieldsHeaders.lookup f).isSome)
    (hlen : key.length = (fields.map payload).sum) :
    RendersKey fields key state ↔
      (∀ f ∈ fields, hasmask f = false ∧ f ≠ oxmTlvHeader 2 8 ∧ f ≠ oxmTlvHeader 26 16 ∧
        f ≠ oxmTlvHeader 31 16 ∧ f ≠ oxmTlvHeader 37 3) ∧
      ∀ last, fields.getLast? = some last → last ∉ fields.dropLast := by
  have hprinted : (∀ f ∈ fields, Printed f) ↔ ∀ f ∈ fields, hasmask f = false ∧
      f ≠ oxmTlvHeader 2 8 ∧ f ≠ oxmTlvHeader 26 16 ∧ f ≠ oxmTlvHeader 31 16 ∧
        f ≠ oxmTlvHeader 37 3 := by
    refine forall₂_congr fun f hf => ?_
    obtain ⟨cls, hmem⟩ := exists_mem_of_known (hknown f hf)
    exact printed_iff_of_known _ hmem
  rw [← hprinted]
  rcases eq_nil_or_concat fields with rfl | ⟨init, last, rfl⟩
  · exact iff_of_true ⟨[], [], rfl, .nil, rfl⟩ (by simp)
  · rw [concat_eq_append] at *
    rw [rendersKey_concat_iff state hknown hlen]
    simp

/-- The key of a learning switch: source and destination of a frame. -/
theorem rendersKey_ethSrc_ethDst :
    RendersKey [oxmTlvHeader 4 6, oxmTlvHeader 3 6] [0, 0, 0, 0, 0, 1, 0, 0, 0, 0, 0, 2] 7 := by
  refine (rendersKey_iff 7 (by decide +kernel) (by decide)).2 ⟨by decide, ?_⟩
  decide

/-- An IPv6 source is not printed: its words are assigned to positions of an empty list. -/
theorem not_rendersKey_ipv6Src :
    stateEntryKeyToStr [oxmTlvHeader 26 16] 1 ⟨16, (zeros 16).map UInt8.toNat, 7⟩ =
        .error .indexError ∧
      ¬RendersKey [oxmTlvHeader 26 16] (zeros 16) 7 := by
  have herror : stateEntryKeyToStr [oxmTlvHeader 26 16] 1 ⟨16, (zeros 16).map UInt8.toNat, 7⟩ =
      .error .indexError := rfl
  refine ⟨herror, ?_⟩
  rintro ⟨cut, texts, -, -, hstr⟩
  cases herror.symm.trans hstr

/-- Two equal fields: no comma follows the first. -/
example : stateEntryKeyToStr [oxmTlvHeader 10 1, oxmTlvHeader 10 1] 2 ⟨2, [6, 17], 0⟩ =
    .ok "ip_proto=\"6\"ip_proto=\"17\"" := by decide +kernel

end BebaCtrl
