import Mathlib.Algebra.Order.BigOperators.Group.List
import BebaCtrl.Beba.Builders

/-!
# Statistics of the state tables

The state tables come back from a switch in a multipart reply of type experimenter. The generic loop
over the body takes the first entry and reads on behind it by a length that has nothing to do with
the data, so whether the reply is accepted depends on the length of the data (`parsesBack_iff`).

The data are records, one for each entry of a state table: a header, the key and its padding.
Records of tables without a lookup scope are passed over by their headers only, so the key of such a
record is read as the next header (`stateStats_readsWhole_iff`).
-/

namespace BebaCtrl

open Struct List

/-! ## Replies of type experimenter -/

namespace OFPExperimenterMultipart

/-- `OFPExperimenterMultipart.serialize` -/
def serialize (body : OFPExperimenterMultipart) : PyResult Bytes := do
  let buf ← pack [I, I] [.int body.experimenter, .int body.expType]
  return buf ++ body.data

/-- The reply with this body, behind the header of the message. -/
def reply (h : Header) (flags : Nat) (body : OFPExperimenterMultipart) : PyResult Bytes := do
  let header ← pack ofpHeaderPackStr [.int h.version, .int h.msgType, .int h.msgLen, .int h.xid]
  let head ← pack [H, H, x 4] [.int 0xffff, .int flags]
  let buf ← body.serialize
  return header ++ head ++ buf

end OFPExperimenterMultipart

/-- Parsing the reply gives the body back. -/
def ParsesBack (conv : Addrconv) (depth : Nat) (h : Header) (flags : Nat)
    (body : OFPExperimenterMultipart) (buf : Bytes) : Prop :=
  Py.Ends (multipartReplyParser conv depth h buf)
    (.ok ⟨0xffff, flags, .single (.experimenter body)⟩)

abbrev experimenterBody (buf : Bytes) (offset : Nat) : Py (StatsBody × Nat) :=
  asBody .experimenter (fun b o => liftM (experimenterMultipartParser b o)) buf offset

variable {buf : Bytes} {offset : Nat}

theorem ends_experimenterBody (h : offset + 8 ≤ buf.length) :
    Py.Ends (experimenterBody buf offset) (.ok (.experimenter
      ⟨beDecode ((buf.drop offset).take 4), beDecode ((buf.drop (offset + 4)).take 4),
        buf.drop (offset + 8)⟩, 16)) := by
  have hunpack : unpackFrom [I, I] buf offset =
      .ok [.int (beDecode ((buf.drop offset).take 4)),
        .int (beDecode ((buf.drop (offset + 4)).take 4))] := by
    rw [unpackFrom, if_pos (by simpa [calcsize] using h)]
    simp [decode]
  have hparser : experimenterMultipartParser buf offset =
      .ok (⟨beDecode ((buf.drop offset).take 4), beDecode ((buf.drop (offset + 4)).take 4),
        buf.drop (offset + 8)⟩, 16) := by
    simp [experimenterMultipartParser, hunpack]
  exact Py.Ends.bind (Py.ends_lift.2 hparser) (Py.ends_pure.2 rfl)

theorem ends_experimenterBody_error (h : buf.length < offset + 8) :
    Py.Ends (experimenterBody buf offset) (.error .structError) := by
  have hunpack : unpackFrom [I, I] buf offset = .error .structError := by
    rw [unpackFrom, if_neg (by simpa [calcsize] using h)]
  refine Py.Ends.bind_error (Py.ends_lift.2 ?_)
  simp only [experimenterMultipartParser, hunpack, bind, Except.bind]

/-- The loop over the entries goes on in steps of sixteen to the end of the message, and needs eight
bytes at each step. -/
theorem ends_span_experimenterBody {length : Nat} (hlen : offset + length = buf.length) :
    if length % 16 = 0 ∨ 8 ≤ length % 16 then
      ∃ entries, Py.Ends (Py.span (experimenterBody buf) offset length) (.ok entries)
    else Py.Ends (Py.span (experimenterBody buf) offset length) (.error .structError) := by
  induction length using Nat.strongRecOn generalizing offset with
  | ind length ih =>
    rcases Nat.eq_zero_or_pos length with rfl | hpos
    · exact ⟨[], Py.ends_span_zero offset⟩
    by_cases hshort : length < 8
    · rw [if_neg (by omega)]
      exact Py.ends_span_error hpos (ends_experimenterBody_error (by omega))
    have hbody := ends_experimenterBody (show offset + 8 ≤ buf.length by omega)
    by_cases hlast : length ≤ 16
    · rw [if_pos (by omega)]
      refine ⟨_, Py.ends_span_later (r := .ok []) hpos hbody ?_⟩
      rw [Nat.sub_eq_zero_of_le hlast]
      exact Py.ends_span_zero _
    · have hrest := ih (length - 16) (by omega)
        (show offset + 16 + (length - 16) = buf.length by omega)
      have hmod : (length - 16) % 16 = length % 16 := by omega
      rw [hmod] at hrest
      split
      · rename_i h
        rw [if_pos h] at hrest
        obtain ⟨entries, hentries⟩ := hrest
        exact ⟨_, Py.ends_span_later hpos hbody hentries⟩
      · rename_i h
        rw [if_neg h] at hrest
        exact Py.ends_span_later hpos hbody hrest

section Reply

variable {conv : Addrconv} {depth : Nat} {h : Header} {flags : Nat}
  {body : OFPExperimenterMultipart} {buf : Bytes}

/-- Where the parts of a reply stand. -/
theorem layout_of_reply_eq_ok (hbuf : body.reply h flags = .ok buf) :
    unpackFrom [H, H, x 4] buf 8 = .ok [.int 0xffff, .int flags] ∧
      unpackFrom [I, I] buf 16 = .ok [.int body.experimenter, .int body.expType] ∧
      buf.drop 24 = body.data ∧ buf.length = 24 + body.data.length := by
  obtain ⟨header, hheader, hbuf⟩ := bind_eq_ok.1 hbuf
  obtain ⟨head, hhead, hbuf⟩ := bind_eq_ok.1 hbuf
  obtain ⟨rest, hrest, hbuf⟩ := bind_eq_ok.1 hbuf
  obtain ⟨ids, hids, hrest⟩ := bind_eq_ok.1 hrest
  cases hrest
  cases hbuf
  have hlen : header.length = 8 := length_of_pack hheader
  have hlen' : head.length = 8 := length_of_pack hhead
  have hlen'' : ids.length = 8 := length_of_pack hids
  rw [← append_assoc]
  have hat : At (header ++ head ++ ids ++ body.data) 0 (header ++ head ++ ids) :=
    prefix_append _ _
  have hatHead := hat.left.right
  have hatIds := hat.right
  rw [hlen] at hatHead
  rw [length_append, hlen, hlen'] at hatIds
  refine ⟨?_, ?_, drop_left' ?_, ?_⟩
  · exact @unpackFrom_of_pack _ [0xffff, flags] _ _ _ hhead (by decide) hatHead
  · exact @unpackFrom_of_pack _ [body.experimenter, body.expType] _ _ _ hids (by decide) hatIds
  · simp [hlen, hlen', hlen'']
  · simp only [length_append, hlen, hlen', hlen'']

theorem ends_experimenterBody_reply (hbuf : body.reply h flags = .ok buf) :
    Py.Ends (experimenterBody buf 16) (.ok (.experimenter body, 16)) := by
  obtain ⟨-, hids, hdata, -⟩ := layout_of_reply_eq_ok hbuf
  have hparser : experimenterMultipartParser buf 16 = .ok (body, 16) := by
    simp [experimenterMultipartParser, hids, hdata]
  exact Py.Ends.bind (Py.ends_lift.2 hparser) (Py.ends_pure.2 rfl)

/-- The entries of a reply that is accepted begin with its body. -/
theorem entries_of_ends_span (hbuf : body.reply h flags = .ok buf) {length : Nat}
    (hpos : 0 < length) {entries : List StatsBody}
    (hspan : Py.Ends (Py.span (experimenterBody buf) 16 length) (.ok entries)) :
    ∃ rest, entries = .experimenter body :: rest := by
  rcases Py.ends_loop_ok_cases hspan with ⟨hc, -⟩ | ⟨x, k, rest, -, hx, hentries, -⟩
  · simp only [decide_eq_false_iff_not] at hc
    omega
  · have hfirst := hx.unique (ends_experimenterBody_reply hbuf)
    cases hfirst
    exact ⟨rest, hentries⟩

/-- The multipart reply of a body is read back exactly when its data end at most eight bytes behind
a multiple of sixteen. -/
theorem parsesBack_iff (hbuf : body.reply h flags = .ok buf) (hlen : h.msgLen = buf.length) :
    ParsesBack conv depth h flags body buf ↔ body.data.length % 16 ≤ 8 := by
  obtain ⟨hhead, -, -, hbuflen⟩ := layout_of_reply_eq_ok hbuf
  have hspan := ends_span_experimenterBody (show 16 + (h.msgLen - 16) = buf.length by omega)
  have hhead' := Py.ends_lift.2 hhead
  constructor
  · intro hback
    by_contra hmod
    rw [if_neg (by omega)] at hspan
    have herror : Py.Ends (multipartReplyParser conv depth h buf) (.error .structError) :=
      hhead'.bind hspan.bind_error
    cases hback.unique herror
  · intro hmod
    rw [if_pos (by omega)] at hspan
    obtain ⟨entries, hentries⟩ := hspan
    obtain ⟨rest, rfl⟩ := entries_of_ends_span hbuf (by omega) hentries
    exact hhead'.bind (hentries.bind (Py.ends_pure.2 rfl))

end Reply

/-- A body with `n` bytes of data. -/
def sampleBody (n : Nat) : OFPExperimenterMultipart := ⟨bebaExperimenterId, 0, zeros n⟩

/-- The header of the reply with that body. -/
def sampleHeader (n : Nat) : Header := ⟨4, 19, 24 + n, 1⟩

theorem parsesBack_sampleBody_forty :
    (sampleBody 40).reply (sampleHeader 40) 0 = .ok
      ([4, 19, 0, 64, 0, 0, 0, 1] ++ [255, 255, 0, 0, 0, 0, 0, 0] ++
        [0xBE, 0xBA, 0xBE, 0xBA, 0, 0, 0, 0] ++ zeros 40) ∧
    ParsesBack OFPMatch.latin1Addrconv 1 (sampleHeader 40) 0 (sampleBody 40)
      ([4, 19, 0, 64, 0, 0, 0, 1] ++ [255, 255, 0, 0, 0, 0, 0, 0] ++
        [0xBE, 0xBA, 0xBE, 0xBA, 0, 0, 0, 0] ++ zeros 40) :=
  ⟨by decide +kernel, (parsesBack_iff (by decide +kernel) (by decide)).2 (by decide)⟩

/-- Nine bytes of data: the second round of the loop finds a single byte. -/
theorem not_parsesBack_sampleBody_nine :
    (sampleBody 9).reply (sampleHeader 9) 0 = .ok
      ([4, 19, 0, 33, 0, 0, 0, 1] ++ [255, 255, 0, 0, 0, 0, 0, 0] ++
        [0xBE, 0xBA, 0xBE, 0xBA, 0, 0, 0, 0] ++ zeros 9) ∧
    ¬ParsesBack OFPMatch.latin1Addrconv 1 (sampleHeader 9) 0 (sampleBody 9)
      ([4, 19, 0, 33, 0, 0, 0, 1] ++ [255, 255, 0, 0, 0, 0, 0, 0] ++
        [0xBE, 0xBA, 0xBE, 0xBA, 0, 0, 0, 0] ++ zeros 9) := by
  refine ⟨by decide +kernel, fun hback => ?_⟩
  have herror : Py.Ends (multipartReplyParser OFPMatch.latin1Addrconv 1 (sampleHeader 9)
      ([4, 19, 0, 33, 0, 0, 0, 1] ++ [255, 255, 0, 0, 0, 0, 0, 0] ++
        [0xBE, 0xBA, 0xBE, 0xBA, 0, 0, 0, 0] ++ zeros 9)) (.error .structError) :=
    ⟨3, rfl⟩
  cases hback.unique herror

/-! ## Records of the state tables -/

structure OFPStateEntry where
  keyCount : Nat
  key : List Nat
  state : Nat
  deriving DecidableEq, Repr

/-- `struct.unpack_from('!B', buf, offset)` -/
def keyByte (buf : Bytes) (offset : Nat) : PyResult Nat := do
  let [.int b] ← unpackFrom [B] buf offset | throw .valueError
  return b

/-- `OFPStateEntry.parser`: the bytes of the key one by one, unless it is too long, and the offset
behind its padding. -/
def OFPStateEntry.parser (buf : Bytes) (offset keyCount state : Nat) :
    PyResult (OFPStateEntry × Nat) := do
  let padding := roundUp keyCount 8 - keyCount
  if keyCount ≤ maxKeyLen then
    let key ← (List.range keyCount).mapM fun f => keyByte buf (offset + f)
    return (⟨keyCount, key, state⟩, offset + keyCount + padding)
  else return (⟨keyCount, [], state⟩, offset + padding)

structure StateTimers where
  durSec : Nat
  durNsec : Nat
  hardRb : Nat
  idleRb : Nat
  hardTo : Nat
  idleTo : Nat
  deriving DecidableEq, Repr

/-- The header of a record; `τ` is what stands between the length of the key and the state. -/
structure StatsHeader (τ : Type) where
  length : Nat
  tableId : Nat
  keyLen : Nat
  timers : τ
  state : Nat
  deriving DecidableEq, Repr

structure StateStats (τ : Type) extends StatsHeader τ where
  fields : List Nat
  fieldCount : Nat
  entry : OFPStateEntry
  deriving DecidableEq, Repr

/-- How a header is packed. -/
structure StatsLayout (τ : Type) where
  packStr : Fmt
  ofVals : List Val → PyResult (StatsHeader τ)
  calcsize_pos : 0 < calcsize packStr

namespace StatsLayout

variable {τ : Type} (layout : StatsLayout τ) (lookupScope : Scope) (buf : Bytes)

/-- A round of the loop, with the number of bytes it moves on: nothing, behind the header, for a
table without a lookup scope. -/
def round (offset : Nat) : PyResult (Option (StateStats τ) × Nat) := do
  let vals ← unpackFrom layout.packStr buf offset
  let header ← layout.ofVals vals
  let size := calcsize layout.packStr
  match lookupScope header.tableId with
  | none => return (none, size)
  | some fields =>
    let (entry, next) ← OFPStateEntry.parser buf (offset + size) header.keyLen header.state
    return (some { header with fields := fields, fieldCount := fields.length, entry := entry },
      next - offset)

def rounds (offset : Nat) : Py (List (Option (StateStats τ))) :=
  Py.span (fun o => liftM (layout.round lookupScope buf o)) offset (buf.length - offset)

/-- `while len(buf) - offset > 0`, collecting the statistics. -/
def parser (offset : Nat) : Py (List (StateStats τ)) := do
  let rounds ← layout.rounds lookupScope buf offset
  return rounds.reduceOption

end StatsLayout

def ofpStateStatsPackStr : Fmt := [H, B, B, I, I, I, I, I, I, I]
def ofpStateStatsShortPackStr : Fmt := [H, B, B, I]

def stateStatsLayout : StatsLayout StateTimers where
  packStr := ofpStateStatsPackStr
  ofVals
    | [.int length, .int tableId, .int keyLen, .int durSec, .int durNsec, .int hardRb, .int idleRb,
        .int hardTo, .int idleTo, .int state] =>
      .ok ⟨length, tableId, keyLen, ⟨durSec, durNsec, hardRb, idleRb, hardTo, idleTo⟩, state⟩
    | _ => .error .valueError
  calcsize_pos := by decide

def stateStatsShortLayout : StatsLayout Unit where
  packStr := ofpStateStatsShortPackStr
  ofVals
    | [.int length, .int tableId, .int keyLen, .int state] =>
        .ok ⟨length, tableId, keyLen, (), state⟩
    | _ => .error .valueError
  calcsize_pos := by decide

/-- `OFPStateStats.parser` -/
def OFPStateStats.parser (lookupScope : Scope) (data : Bytes) (offset : Nat) :
    Py (List (StateStats StateTimers)) :=
  stateStatsLayout.parser lookupScope data offset

/-- `OFPStateStatsShort.parser` -/
def OFPStateStatsShort.parser (lookupScope : Scope) (data : Bytes) (offset : Nat) :
    Py (List (StateStats Unit)) :=
  stateStatsShortLayout.parser lookupScope data offset

/-- A record as a switch sends it: the header, the key it announces, and padding to a multiple of
eight. -/
structure StateRecord {τ : Type} (layout : StatsLayout τ) where
  vals : List Val
  header : StatsHeader τ
  key : Bytes
  padding : Bytes
  exact_vals : exact layout.packStr vals = true
  ofVals_vals : layout.ofVals vals = .ok header
  keyLen_eq : header.keyLen = key.length
  length_key_le : key.length ≤ maxKeyLen
  length_padding : key.length + padding.length = roundUp key.length 8

namespace StateRecord

variable {τ : Type} {layout : StatsLayout τ}

def bytes (r : StateRecord layout) : Bytes := encode layout.packStr r.vals ++ (r.key ++ r.padding)

/-- The statistics of a record, for a table with a lookup scope. -/
def stats (lookupScope : Scope) (r : StateRecord layout) : Option (StateStats τ) :=
  (lookupScope r.header.tableId).map fun fields =>
    { r.header with
      fields := fields, fieldCount := fields.length
      entry := ⟨r.key.length, r.key.map UInt8.toNat, r.header.state⟩ }

theorem length_bytes (r : StateRecord layout) :
    r.bytes.length = calcsize layout.packStr + roundUp r.key.length 8 := by
  rw [bytes, length_append, length_encode (fits_of_exact r.exact_vals), length_append,
    r.length_padding]

theorem length_bytes_pos (r : StateRecord layout) : 0 < r.bytes.length := by
  have hpos := layout.calcsize_pos
  rw [length_bytes]
  omega

end StateRecord

/-- The loop takes one round for each record, with its statistics or, for a table without a lookup
scope, nothing, and returns the statistics in order. -/
def ReadsWhole {τ : Type} (layout : StatsLayout τ) (lookupScope : Scope)
    (records : List (StateRecord layout)) : Prop :=
  Py.Ends (layout.rounds lookupScope (records.map StateRecord.bytes).flatten 0)
      (.ok (records.map (StateRecord.stats lookupScope))) ∧
    Py.Ends (layout.parser lookupScope (records.map StateRecord.bytes).flatten 0)
      (.ok (records.filterMap (StateRecord.stats lookupScope)))

theorem keyByte_eq {b : UInt8} (h : buf[offset]? = some b) :
    keyByte buf offset = .ok b.toNat := by
  obtain ⟨hlt, hb⟩ := List.getElem?_eq_some_iff.1 h
  have hdrop : (buf.drop offset).take 1 = [b] := by
    rw [List.drop_eq_getElem_cons hlt, hb]
    rfl
  have hunpack : unpackFrom [B] buf offset = .ok [.int b.toNat] := by
    rw [unpackFrom, if_pos (by simp [calcsize]; omega)]
    simp [decode, hdrop, beDecode]
  simp [keyByte, hunpack]

variable {key : Bytes}

theorem mapM_keyByte (hat : At buf offset key) :
    ((List.range key.length).mapM fun f => keyByte buf (offset + f)) =
      .ok (key.map UInt8.toNat) := by
  have hbyte : ∀ f ∈ List.range key.length,
      keyByte buf (offset + f) = .ok (key.getD f 0).toNat := by
    intro f hf
    obtain ⟨rest, hrest⟩ := hat
    have hlt := mem_range.1 hf
    apply keyByte_eq
    rw [← getElem?_drop, ← hrest, getElem?_append_left hlt]
    simp [hlt]
  rw [mapM_eq_map hbyte]
  congr 1
  apply ext_getElem
  · simp
  · intro f hf _
    simp only [length_map, length_range] at hf
    simp [hf]

theorem OFPStateEntry.parser_at (hkey : key.length ≤ maxKeyLen)
    (hat : At buf offset key) (state : Nat) :
    OFPStateEntry.parser buf offset key.length state =
      .ok (⟨key.length, key.map UInt8.toNat, state⟩, offset + roundUp key.length 8) := by
  have hle := le_roundUp key.length (y := 8) (by decide)
  simp only [OFPStateEntry.parser, hkey, if_true, mapM_keyByte hat, Except.ok.injEq, Prod.mk.injEq,
    true_and, ok_bind, pure_eq_ok]
  omega

section Rounds

variable {τ : Type} {layout : StatsLayout τ} {lookupScope : Scope} {r : StateRecord layout}

/-- A round at a record, for a table with a lookup scope. -/
theorem round_of_some {fields : List Nat} (hat : At buf offset r.bytes)
    (hscope : lookupScope r.header.tableId = some fields) :
    layout.round lookupScope buf offset = .ok (r.stats lookupScope, r.bytes.length) := by
  have hlen := length_encode (fits_of_exact r.exact_vals)
  have hvals := unpackFrom_at r.exact_vals layout.calcsize_pos hat.left
  have hkey := hat.right.left
  rw [hlen] at hkey
  have hentry := OFPStateEntry.parser_at r.length_key_le hkey r.header.state
  simp only [StatsLayout.round, hvals, r.ofVals_vals, hscope, hentry, StateRecord.stats,
    StateRecord.length_bytes, Option.map_some, r.keyLen_eq, Except.ok.injEq, Prod.mk.injEq,
    true_and, ok_bind, pure_eq_ok]
  omega

/-- A round at a record of another table reads its header only. -/
theorem round_of_none (hat : At buf offset r.bytes) (hscope : lookupScope r.header.tableId = none) :
    layout.round lookupScope buf offset =
      .ok (r.stats lookupScope, calcsize layout.packStr) := by
  have hvals := unpackFrom_at r.exact_vals layout.calcsize_pos hat.left
  simp [StatsLayout.round, hvals, r.ofVals_vals, hscope, StateRecord.stats]

/-- The bytes a round passes, by what it returns. -/
def passed (layout : StatsLayout τ) : Option (StateStats τ) → Nat
  | none => calcsize layout.packStr
  | some stats =>
    calcsize layout.packStr + (if stats.keyLen ≤ maxKeyLen then stats.keyLen else 0) +
      (roundUp stats.keyLen 8 - stats.keyLen)

theorem eq_passed_of_round {stats : Option (StateStats τ)} {k : Nat}
    (h : layout.round lookupScope buf offset = .ok (stats, k)) : k = passed layout stats := by
  obtain ⟨vals, -, h⟩ := bind_eq_ok.1 h
  obtain ⟨header, -, h⟩ := bind_eq_ok.1 h
  split at h
  · cases h
    rfl
  · obtain ⟨⟨entry, next⟩, hentry, h⟩ := bind_eq_ok.1 h
    cases h
    unfold OFPStateEntry.parser at hentry
    dsimp only [passed]
    split at hentry
    · obtain ⟨key, -, hentry⟩ := bind_eq_ok.1 hentry
      cases hentry
      simp [*]
      omega
    · cases hentry
      simp [*]
      omega

theorem passed_stats (r : StateRecord layout) :
    passed layout (r.stats lookupScope) =
      if lookupScope r.header.tableId = none then calcsize layout.packStr else r.bytes.length := by
  have hle := le_roundUp r.key.length (y := 8) (by decide)
  unfold StateRecord.stats
  cases lookupScope r.header.tableId with
  | none => rfl
  | some fields =>
    simp only [Option.map_some, passed, r.keyLen_eq, if_pos r.length_key_le, reduceCtorEq, if_false,
      StateRecord.length_bytes]
    omega

theorem passed_stats_le (r : StateRecord layout) :
    passed layout (r.stats lookupScope) ≤ r.bytes.length := by
  rw [passed_stats]
  split
  · rw [StateRecord.length_bytes]
    omega
  · exact le_rfl

/-- Reading the records whole leaves no bytes of a key unread, so the keys of the records that are
passed over by their headers must be empty. -/
theorem key_eq_nil_of_ends_rounds {records : List (StateRecord layout)}
    (h : Py.Ends (layout.rounds lookupScope (records.map StateRecord.bytes).flatten 0)
      (.ok (records.map (StateRecord.stats lookupScope)))) :
    ∀ r ∈ records, lookupScope r.header.tableId = none → r.key = [] := by
  have hsize (o : Nat) (x : Option (StateStats τ)) (k : Nat)
      (hk : Py.Ends (liftM (layout.round lookupScope (records.map StateRecord.bytes).flatten o))
        (.ok (x, k))) : k = passed layout x :=
    eq_passed_of_round (Py.ends_lift.1 hk)
  have hle := Py.le_sum_of_ends_span hsize h
  rw [Nat.sub_zero, length_flatten, map_map, map_map] at hle
  clear h hsize
  induction records with
  | nil => simp
  | cons r records ih =>
    have htail : (records.map (passed layout ∘ StateRecord.stats lookupScope)).sum ≤
        (records.map (List.length ∘ StateRecord.bytes)).sum :=
      sum_le_sum fun r _ => passed_stats_le r
    have hhead : passed layout (r.stats lookupScope) ≤ r.bytes.length := passed_stats_le r
    simp only [map_cons, sum_cons, Function.comp_apply] at hle
    rw [forall_mem_cons]
    refine ⟨fun hscope => ?_, ih (by omega)⟩
    have hpassed : passed layout (r.stats lookupScope) = calcsize layout.packStr := by
      rw [passed_stats, if_pos hscope]
    have hlen := r.length_bytes
    have hkey := le_roundUp r.key.length (y := 8) (by decide)
    exact length_eq_zero_iff.1 (by omega)

/-- Records are read whole exactly when those of tables without a lookup scope have no key. -/
theorem readsWhole_layout_iff (records : List (StateRecord layout)) :
    ReadsWhole layout lookupScope records ↔
      ∀ r ∈ records, lookupScope r.header.tableId = none → r.key = [] := by
  constructor
  · exact fun h => key_eq_nil_of_ends_rounds h.1
  · intro h
    have hround : ∀ r ∈ records, ∀ o, At (records.map StateRecord.bytes).flatten o r.bytes →
        layout.round lookupScope (records.map StateRecord.bytes).flatten o =
          .ok (r.stats lookupScope, r.bytes.length) := by
      intro r hr o hat
      cases hscope : lookupScope r.header.tableId with
      | some fields => exact round_of_some hat hscope
      | none =>
        have hlen := r.length_bytes
        rw [h r hr hscope] at hlen
        rw [round_of_none hat hscope, hlen]
        rfl
    have hrounds : Py.Ends (layout.rounds lookupScope (records.map StateRecord.bytes).flatten 0)
        (.ok (records.map (StateRecord.stats lookupScope))) := by
      have hbody : ∀ r ∈ records, ∀ o, At (records.map StateRecord.bytes).flatten o r.bytes →
          0 < r.bytes.length ∧ ∃ x,
            Py.Ends (liftM (layout.round lookupScope (records.map StateRecord.bytes).flatten o))
              (.ok (x, r.bytes.length)) ∧ r.stats lookupScope = x :=
        fun r hr o hat => ⟨r.length_bytes_pos, _, Py.ends_lift.2 (hround r hr o hat), rfl⟩
      obtain ⟨xs, hxs, hstats⟩ := Py.ends_span_at records hbody (show At _ 0 _ from prefix_rfl)
      rw [forall₂_map_left_iff.symm, forall₂_eq_eq_eq] at hstats
      rw [hstats]
      exact hxs
    refine ⟨hrounds, ?_⟩
    have hreduce : (records.map (StateRecord.stats lookupScope)).reduceOption =
        records.filterMap (StateRecord.stats lookupScope) := by
      exact filterMap_map
    rw [← hreduce]
    exact hrounds.bind (Py.ends_pure.2 rfl)

end Rounds

/-- The statistics of a reply are those of its records, each of them read in one round, exactly when
the records of tables without a lookup scope have no key. -/
theorem stateStats_readsWhole_iff (lookupScope : Scope)
    (records : List (StateRecord stateStatsLayout)) :
    (Py.Ends (stateStatsLayout.rounds lookupScope (records.map StateRecord.bytes).flatten 0)
        (.ok (records.map (StateRecord.stats lookupScope))) ∧
      Py.Ends (OFPStateStats.parser lookupScope (records.map StateRecord.bytes).flatten 0)
        (.ok (records.filterMap (StateRecord.stats lookupScope)))) ↔
      ∀ r ∈ records, lookupScope r.header.tableId = none → r.key = [] :=
  readsWhole_layout_iff records

/-- An entry of table 5, for the address 10.0.0.1. -/
def addressRecord : StateRecord stateStatsLayout where
  vals := [.int 40, .int 5, .int 4, .int 1, .int 0, .int 0, .int 0, .int 0, .int 0, .int 7]
  header := ⟨40, 5, 4, ⟨1, 0, 0, 0, 0, 0⟩, 7⟩
  key := [10, 0, 0, 1]
  padding := [0, 0, 0, 0]
  exact_vals := by decide
  ofVals_vals := rfl
  keyLen_eq := rfl
  length_key_le := by decide
  length_padding := by decide

/-- An entry of table 0 without a key. -/
def keylessRecord : StateRecord stateStatsLayout where
  vals := [.int 32, .int 0, .int 0, .int 1, .int 0, .int 0, .int 0, .int 60, .int 0, .int 9]
  header := ⟨32, 0, 0, ⟨1, 0, 0, 0, 60, 0⟩, 9⟩
  key := []
  padding := []
  exact_vals := by decide
  ofVals_vals := rfl
  keyLen_eq := rfl
  length_key_le := by decide
  length_padding := by decide

def tableZeroScope : Scope := Scope.set (fun _ => none) 0 []

/-- With a scope for table 0 only, the key of table 5 is read as a header of table 0: its state is
the hard timeout of the next record. -/
theorem not_ends_parser_addressRecord :
    ¬Py.Ends (OFPStateStats.parser tableZeroScope
        ([addressRecord, keylessRecord].map StateRecord.bytes).flatten 0)
      (.ok ([addressRecord, keylessRecord].filterMap (StateRecord.stats tableZeroScope))) := by
  intro h
  have hwrong : Py.Ends (OFPStateStats.parser tableZeroScope
      ([addressRecord, keylessRecord].map StateRecord.bytes).flatten 0)
      (.ok [⟨⟨2560, 0, 1, ⟨0, 2097152, 1, 0, 0, 0⟩, 60⟩, [], 0, ⟨1, [0], 60⟩⟩]) :=
        ⟨3, by decide +kernel⟩
  cases h.unique hwrong

end BebaCtrl
