import BebaCtrl.Lib.PackUtils

/-!
# Message headers and parser dispatch

Every OpenFlow message starts with an 8-byte header: version, type, length, transaction id.
`header` reads it, `msg` hands the message to the parser registered for its version. An unknown
version raises; whatever a registered parser raises is logged and swallowed.

Parsers are modelled by what comes of calling them: a message, an exception, or `none` when the
call does not return.
-/

namespace BebaCtrl

open Struct List

def nxExperimenterId : Nat := 0x00002320
def onfExperimenterId : Nat := 0x4f4e4600
def bebaExperimenterId : Nat := 0xBEBABEBA

def ofpHeaderPackStr : Fmt := [B, B, H, I]
def ofpHeaderSize : Nat := 8

structure Header where
  version : Nat
  msgType : Nat
  msgLen : Nat
  xid : Nat
  deriving DecidableEq, Repr

def header (buf : Bytes) : PyResult Header := do
  pyAssert (ofpHeaderSize ≤ buf.length)
  let [.int version, .int msgType, .int msgLen, .int xid] ← unpackFrom ofpHeaderPackStr buf 0
    | throw .valueError
  return ⟨version, msgType, msgLen, xid⟩

/-- The header fields of a buffer that is long enough. -/
def headerOf (buf : Bytes) : Header where
  version := beDecode (buf.take 1)
  msgType := beDecode ((buf.drop 1).take 1)
  msgLen := beDecode ((buf.drop 2).take 2)
  xid := beDecode ((buf.drop 4).take 4)

variable {buf : Bytes}

theorem header_eq (h : ofpHeaderSize ≤ buf.length) :
    header buf = .ok (headerOf buf) := by
  have hsize : 0 + calcsize ofpHeaderPackStr ≤ buf.length := h
  rw [header, pyAssert_pos h, unpackFrom, if_pos hsize]
  simp only [ofpHeaderPackStr, decode, drop_drop, drop_zero]
  rfl

theorem header_short (h : buf.length < ofpHeaderSize) :
    header buf = .error .assertionError := by
  rw [header, pyAssert_neg (by omega)]
  rfl

variable {a : Bytes}

/-- The header is read off the first eight bytes. -/
theorem headerOf_append (h : ofpHeaderSize ≤ a.length) (b : Bytes) :
    headerOf (a ++ b) = headerOf a := by
  have h8 : 8 ≤ a.length := h
  unfold headerOf
  rw [take_append_of_le_length (by omega), drop_append_of_le_length (by omega),
    drop_append_of_le_length (by omega), drop_append_of_le_length (by omega),
    take_append_of_le_length (by simp; omega), take_append_of_le_length (by simp; omega),
    take_append_of_le_length (by simp; omega)]

theorem headerOf_extend {b : Bytes} (h : ofpHeaderSize ≤ a.length) (hp : a <+: b) :
    headerOf b = headerOf a := by
  obtain ⟨t, rfl⟩ := hp
  exact headerOf_append h t

/-! ## Serializing a message -/

/-- `MsgBase.serialize`: the body is written behind room for the header, and the header last, when
the length is known. -/
def MsgBase.serialize (version msgType : Nat) (xid : Option Nat) (body : Bytes → PyResult Bytes) :
    PyResult Bytes := do
  let buf ← body (zeros ofpHeaderSize)
  pyAssert (ofpHeaderSize ≤ buf.length)
  packInto ofpHeaderPackStr buf 0 [.int version, .int msgType, .int buf.length, .int (xid.getD 0)]

variable {version msgType : Nat} {body : Bytes → PyResult Bytes}

theorem MsgBase.serialize_ok {xid : Option Nat}
    {m : Bytes} (h : serialize version msgType xid body = .ok m) :
    ∃ buf, body (zeros ofpHeaderSize) = .ok buf ∧ ofpHeaderSize ≤ buf.length ∧
      fits ofpHeaderPackStr
        [.int version, .int msgType, .int buf.length, .int (xid.getD 0)] = true ∧
      m = splice buf 0 (encode ofpHeaderPackStr
        [.int version, .int msgType, .int buf.length, .int (xid.getD 0)]) := by
  obtain ⟨buf, hbody, h⟩ := bind_eq_ok.1 h
  obtain ⟨_, hassert, h⟩ := bind_eq_ok.1 h
  have hlen := of_pyAssert hassert
  obtain ⟨bs, hpack, h⟩ := bind_eq_ok.1 h
  obtain ⟨hfit, rfl⟩ := pack_ok_iff.1 hpack
  refine ⟨buf, hbody, hlen, hfit, ?_⟩
  have hok := packInto_ok hfit (show 0 + calcsize ofpHeaderPackStr ≤ buf.length from hlen)
  rw [packInto, pack_eq_ok hfit] at hok
  exact Except.ok.inj (h.symm.trans hok)

/-- The header has the length of the message, and the rest is what the body wrote. -/
theorem MsgBase.layout_of_serialize {xid : Option Nat} {m : Bytes}
    (h : serialize version msgType xid body = .ok m) :
    ∃ buf, body (zeros ofpHeaderSize) = .ok buf ∧ m.length = buf.length ∧
      beDecode (slice m 2 4) = m.length ∧ ∀ {n}, 8 ≤ n → m.drop n = buf.drop n := by
  obtain ⟨buf, hbody, hle, hfit, rfl⟩ := serialize_ok h
  set hdr :=
    encode ofpHeaderPackStr [.int version, .int msgType, .int buf.length, .int (xid.getD 0)]
  have h8 : hdr.length = 8 := length_encode hfit
  have hlen : (splice buf 0 hdr).length = buf.length := by
    rw [length_splice, h8]
    exact Nat.max_eq_left hle
  refine ⟨buf, hbody, hlen, ?_, fun {n} hn => ?_⟩
  · simp only [ofpHeaderPackStr, fits, Bool.and_eq_true, decide_eq_true_eq] at hfit
    have hat : At (splice buf 0 hdr) 2 (beEncode 2 buf.length) :=
      (at_splice buf 0 hdr).right.right.left
    have hslice := hat.slice_eq
    rw [length_beEncode] at hslice
    rw [hslice, beDecode_beEncode 2 _ hfit.2.2.1, hlen]
  · have hrest := congrArg (drop (n - 8)) (drop_splice buf 0 hdr)
    rwa [drop_drop, drop_drop, h8, show 0 + 8 + (n - 8) = n by omega] at hrest

theorem MsgBase.serialize_of_body {xid : Nat}
    (hbody : body (zeros ofpHeaderSize) = .ok buf) (hle : ofpHeaderSize ≤ buf.length)
    (hfit : fits ofpHeaderPackStr [.int version, .int msgType, .int buf.length, .int xid] = true) :
    ∃ m, serialize version msgType (some xid) body = .ok m := by
  refine ⟨splice buf 0 (encode ofpHeaderPackStr
    [.int version, .int msgType, .int buf.length, .int xid]), ?_⟩
  rw [serialize, hbody]
  simp only [pyAssert_pos hle, Option.getD_some, ok_bind]
  exact packInto_ok hfit hle

/-! ## Dispatch to the parser of a version -/

/-- A parser called with a header and the message bytes; `none` when it does not return. -/
abbrev MsgParser (μ : Type) := Header → Bytes → Option (PyResult μ)

/-- The versions for which a module calls `register_msg_parser`: 1.0, 1.2, 1.3, 1.4 and 1.5. -/
def registeredVersions : List Nat := [0x01, 0x03, 0x04, 0x05, 0x06]

def ofpUnknownVersion : PyErr := .other "OFPUnknownVersion"

/-- `ofproto_parser.msg`: `ok none` stands for a message whose parser raised. -/
def msg {μ : Type} (parsers : Nat → MsgParser μ) (h : Header) (buf : Bytes) :
    Option (PyResult (Option μ)) :=
  if h.msgLen ≤ buf.length then
    if h.version ∈ registeredVersions then
      match parsers h.version h buf with
      | none => none
      | some (.ok m) => some (.ok (some m))
      | some (.error _) => some (.ok none)
    else some (.error ofpUnknownVersion)
  else some (.error .assertionError)

end BebaCtrl
