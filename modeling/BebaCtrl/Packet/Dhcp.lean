import BebaCtrl.Lib.Struct
import Mathlib.Data.List.TakeWhile

/-!
# The options of DHCP

An options field is the magic cookie and then options, each of them a tag, a length and a value; pad
and end are tags without a length. The parser of an option answers both with `None`, and the loop
over the options stops at `None`. So an option behind a pad octet is lost, and with it all that
follow (`meets_iff_no_pads`).
-/

namespace BebaCtrl.Dhcp

open Struct List

def dhcpPadOpt : Nat := 0
def dhcpEndOpt : Nat := 255

/-- The class `option`. -/
structure DhcpOption where
  tag : Nat
  value : Bytes
  length : Nat
  deriving DecidableEq, Repr

structure Options where
  optionList : List DhcpOption
  optionsLen : Nat
  magicCookie : String
  deriving DecidableEq, Repr

def optionParser (buf : Bytes) : PyResult (Option DhcpOption) := do
  let [.int tag] ← unpackFrom [B] buf 0 | throw .valueError
  if tag = dhcpEndOpt ∨ tag = dhcpPadOpt then return none
  let buf := buf.drop 1
  let [.int length] ← unpackFrom [B] buf 0 | throw .valueError
  let buf := buf.drop 1
  let [.bytes value] ← unpackFrom [s length] buf 0 | throw .valueError
  return some ⟨tag, value, length⟩

/-- The loop of `options.parser`. -/
def optionsLoop (buf : Bytes) (offset : Nat) : PyResult (List DhcpOption) :=
  if offset < buf.length then do
    match ← optionParser (buf.drop offset) with
    | none => return []
    | some opt =>
      let opts ← optionsLoop buf (offset + (opt.length + 2))
      return opt :: opts
  else return []
termination_by buf.length - offset

/-- `options.parser`, where `binToText` is the conversion of `addrconv.ipv4`. -/
def parser (binToText : Bytes → String) (buf : Bytes) : PyResult Options := do
  let [.bytes magicCookie] ← unpackFrom [s 4] buf 0 | throw .valueError
  let optParseList ← optionsLoop buf 4
  return ⟨optParseList, buf.length, binToText magicCookie⟩

/-! ## Options fields -/

structure WireOption where
  tag : UInt8
  value : Bytes
  ne_pad : tag ≠ 0
  ne_end : tag ≠ 255
  length_le : value.length ≤ 255

namespace WireOption

def bytes (o : WireOption) : Bytes := o.tag :: UInt8.ofNat o.value.length :: o.value

def parsed (o : WireOption) : DhcpOption := ⟨o.tag.toNat, o.value, o.value.length⟩

theorem optionParser_bytes (o : WireOption) (rest : Bytes) :
    optionParser (o.bytes ++ rest) = .ok (some o.parsed) := by
  have htag : ¬(o.tag.toNat = dhcpEndOpt ∨ o.tag.toNat = dhcpPadOpt) := by
    have hend : o.tag.toNat ≠ 255 := fun h => o.ne_end (UInt8.toNat_inj.1 h)
    have hpad : o.tag.toNat ≠ 0 := fun h => o.ne_pad (UInt8.toNat_inj.1 h)
    simp [dhcpEndOpt, dhcpPadOpt, hend, hpad]
  have hlen : o.value.length % 256 = o.value.length := by
    have := o.length_le
    omega
  simp [optionParser, bytes, unpackFrom, calcsize, decode, beDecode, htag, hlen, parsed]

end WireOption

theorem optionParser_stop {tag : UInt8} (h : tag = 0 ∨ tag = 255) (rest : Bytes) :
    optionParser (tag :: rest) = .ok none := by
  rcases h with rfl | rfl <;> simp [optionParser, unpackFrom, calcsize, decode, beDecode,
    dhcpEndOpt, dhcpPadOpt]

/-- Options with the number of pad octets in front of each, the pad octets before the end octet and
what stands behind it. -/
structure Field where
  options : List (Nat × WireOption)
  pads : Nat
  trailing : Bytes

namespace Field

def bytes (field : Field) : Bytes :=
  [99, 130, 83, 99] ++ ((field.options.map fun (n, o) => zeros n ++ o.bytes).flatten ++
    (zeros field.pads ++ 255 :: field.trailing))

/-- The parser returns the options of the field. -/
def Meets (binToText : Bytes → String) (field : Field) : Prop :=
  ∃ r, parser binToText field.bytes = .ok r ∧ r.optionList = field.options.map (·.2.parsed)

end Field

variable {buf : Bytes} {offset : Nat}

theorem optionsLoop_stop {tag : UInt8} {rest : Bytes} (h : tag = 0 ∨ tag = 255)
    (hdrop : buf.drop offset = tag :: rest) : optionsLoop buf offset = .ok [] := by
  have hlt : offset < buf.length := Nat.not_le.1 (mt drop_eq_nil_iff.2 (hdrop ▸ nofun))
  rw [optionsLoop, if_pos hlt, hdrop, optionParser_stop h]
  rfl

/-- The loop returns the options up to the first pad octet. -/
theorem optionsLoop_eq (options : List (Nat × WireOption)) (pads : Nat) (trailing : Bytes)
    (hdrop : buf.drop offset = (options.map fun (n, o) => zeros n ++ o.bytes).flatten ++
      (zeros pads ++ 255 :: trailing)) :
    optionsLoop buf offset = .ok ((options.takeWhile (·.1 = 0)).map (·.2.parsed)) := by
  induction options generalizing offset with
  | nil =>
    cases pads with
    | zero => exact optionsLoop_stop (.inr rfl) hdrop
    | succ n => exact optionsLoop_stop (.inl rfl) hdrop
  | cons p options ih =>
    obtain ⟨n, o⟩ := p
    rw [map_cons, flatten_cons, append_assoc, append_assoc] at hdrop
    cases n with
    | zero =>
      set rest := (options.map fun (n, o) => zeros n ++ o.bytes).flatten ++
        (zeros pads ++ 255 :: trailing)
      have hdrop : buf.drop offset = o.bytes ++ rest := hdrop
      have hlt : offset < buf.length := Nat.not_le.1 (mt drop_eq_nil_iff.2 (hdrop ▸ nofun))
      have hnext : buf.drop (offset + (o.parsed.length + 2)) = rest := by
        rw [← drop_drop, hdrop]
        exact drop_left' rfl
      rw [optionsLoop, if_pos hlt, hdrop, o.optionParser_bytes, ok_bind]
      simp only [ih hnext, ok_bind]
      rfl
    | succ n => exact optionsLoop_stop (.inl rfl) hdrop

theorem parser_bytes (binToText : Bytes → String) (field : Field) :
    parser binToText field.bytes = .ok ⟨(field.options.takeWhile (·.1 = 0)).map (·.2.parsed),
      field.bytes.length, binToText [99, 130, 83, 99]⟩ := by
  have hcookie : unpackFrom [s 4] field.bytes 0 = .ok [.bytes [99, 130, 83, 99]] := by
    simp [unpackFrom, Field.bytes, calcsize, decode]
  rw [parser, hcookie, ok_bind, optionsLoop_eq field.options field.pads field.trailing rfl]
  rfl

/-- The options of a field are returned exactly when no pad octet stands in front of one. -/
theorem meets_iff_no_pads (binToText : Bytes → String) (field : Field) :
    field.Meets binToText ↔ ∀ p ∈ field.options, p.1 = 0 := by
  rw [Field.Meets, parser_bytes]
  constructor
  · rintro ⟨r, hr, hlist⟩ p hp
    cases hr
    have hlen := congrArg List.length hlist
    rw [length_map, length_map] at hlen
    have hfront : field.options.takeWhile (·.1 = 0) <+: field.options :=
      takeWhile_prefix _
    rw [← hfront.eq_of_length hlen] at hp
    simpa using mem_takeWhile_imp hp
  · intro h
    exact ⟨_, rfl, by rw [takeWhile_eq_self_iff.2 (by simpa using h)]⟩

/-- A message type, and the lease time behind a pad octet. -/
theorem not_meets_pad :
    ¬Field.Meets (fun _ => "") ⟨[(0, ⟨53, [1], by decide, by decide, by decide⟩),
      (1, ⟨51, [0, 0, 14, 16], by decide, by decide, by decide⟩)], 0, []⟩ := by
  rintro ⟨r, hr, hlist⟩
  rw [parser_bytes] at hr
  cases hr
  cases hlist

end BebaCtrl.Dhcp
