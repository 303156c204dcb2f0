import BebaCtrl.Lib.Struct

/-!
# Packing into a growing buffer

`msg_pack_into` packs values at an offset of a `bytearray`, extending it where needed. Whatever
the length of the buffer, its effect is a `splice` of the packed bytes.
-/

namespace BebaCtrl

open Struct List

/-- `struct.pack_into`, which does not grow the buffer. -/
def packInto (fmt : Fmt) (buf : Bytes) (offset : Nat) (args : List Val) : PyResult Bytes := do
  let bs ← pack fmt args
  if offset + calcsize fmt ≤ buf.length then
    return buf.take offset ++ bs ++ buf.drop (offset + bs.length)
  else throw .structError

def msgPackInto (fmt : Fmt) (buf : Bytes) (offset : Nat) (args : List Val) : PyResult Bytes := do
  let buf := if buf.length < offset then buf ++ zeros (offset - buf.length) else buf
  if buf.length = offset then
    return buf ++ (← pack fmt args)
  else
    let neededLen := offset + calcsize fmt
    let buf := if buf.length < neededLen then buf ++ zeros (neededLen - buf.length) else buf
    packInto fmt buf offset args

variable {fmt : Fmt} {args : List Val} {buf : Bytes} {offset : Nat}

theorem packInto_ok (h : fits fmt args = true) (hlen : offset + calcsize fmt ≤ buf.length) :
    packInto fmt buf offset args = .ok (splice buf offset (encode fmt args)) := by
  have hz : offset - buf.length = 0 := by omega
  rw [packInto, pack_eq_ok h, splice, hz, zeros_zero, append_nil]
  simp only [if_pos hlen, ok_bind]
  rfl

variable {bs : Bytes}

theorem msgPackInto_ok (h : fits fmt args = true) (buf : Bytes) (offset : Nat) :
    msgPackInto fmt buf offset args = .ok (splice buf offset (encode fmt args)) := by
  have hlen := length_encode h
  unfold msgPackInto
  simp only [pack_eq_ok h]
  -- the buffer is first filled up to the offset
  obtain ⟨k, hbuf, hk, hoff⟩ : ∃ k,
      (if buf.length < offset then buf ++ zeros (offset - buf.length) else buf) = buf ++ zeros k ∧
      buf.length + k ≤ max buf.length offset ∧ offset ≤ buf.length + k := by
    split
    · exact ⟨offset - buf.length, rfl, by omega, by omega⟩
    · exact ⟨0, by simp, by omega, by omega⟩
  rw [hbuf]
  split
  · rename_i heq
    have hl : buf.length + k = offset := by simpa using heq
    have hs : splice (buf ++ zeros k) offset (encode fmt args) =
        buf ++ zeros k ++ encode fmt args := by
      rw [← heq, splice_end]
    rw [splice_append_zeros (by omega)] at hs
    simp [hs]
  · split
    · have hl : (buf ++ zeros k).length = buf.length + k := by simp
      rw [packInto_ok h (by simp; omega), splice_append_zeros (by omega), splice_append_zeros]
      omega
    · rename_i hne hlong
      have hl : (buf ++ zeros k).length = buf.length + k := by simp
      have hk0 : k = 0 := by omega
      subst hk0
      rw [zeros_zero, append_nil] at hlong ⊢
      rw [packInto_ok h (by omega)]

theorem msgPackInto_error (h : fits fmt args = false) (buf : Bytes) (offset : Nat) :
    msgPackInto fmt buf offset args = .error .structError := by
  have hpack : pack fmt args = .error .structError := by simp [pack, h]
  unfold msgPackInto packInto
  simp only [hpack]
  split <;> split <;> rfl

/-- What `msg_pack_into` does, in one equation. -/
theorem msgPackInto_eq (fmt : Fmt) (buf : Bytes) (offset : Nat) (args : List Val) :
    msgPackInto fmt buf offset args = (pack fmt args).map (splice buf offset) := by
  cases h : fits fmt args with
  | false => rw [msgPackInto_error h, pack, h]; rfl
  | true => rw [msgPackInto_ok h, pack_eq_ok h]; rfl

theorem msgPackInto_eq_ok_iff : msgPackInto fmt buf offset args = .ok bs ↔
    fits fmt args = true ∧ bs = splice buf offset (encode fmt args) := by
  cases hfit : fits fmt args with
  | false => simp [msgPackInto_error hfit]
  | true => simp [msgPackInto_ok hfit, eq_comm]

/-- Behind what is there already. -/
theorem msgPackInto_end_eq_ok_iff (h : offset = buf.length) :
    msgPackInto fmt buf offset args = .ok bs ↔
      fits fmt args = true ∧ bs = buf ++ encode fmt args := by
  rw [msgPackInto_eq_ok_iff, h, splice_end]

theorem msgPackInto_nil_eq_ok_iff :
    msgPackInto fmt [] 0 args = .ok bs ↔ fits fmt args = true ∧ bs = encode fmt args :=
  msgPackInto_end_eq_ok_iff rfl

/-! ## Writers

A writer puts its bytes at an offset of a buffer and returns the buffer and the length it takes up,
which may be more than the bytes it wrote. `Writes w r` says that what it writes, or raises, depends
neither on the buffer nor on the offset. -/

abbrev Writer := Bytes → Nat → PyResult (Bytes × Nat)

def Writes (w : Writer) (r : PyResult (Bytes × Nat)) : Prop :=
  ∀ buf off, w buf off = r.map fun p => (splice buf off p.1, p.2)

variable {r : PyResult (Bytes × Nat)} {w : Writer}

/-- What a writer puts into the empty buffer is what it puts everywhere. -/
theorem Writes.eq_empty (h : Writes w r) : r = w [] 0 := by
  rw [h [] 0]
  cases r with
  | error e => rfl
  | ok p => simp [Except.map, splice]

theorem Writes.relocate (h : Writes w r) : Writes w (w [] 0) := h.eq_empty ▸ h

theorem writes_error (e : PyErr) : Writes (fun _ _ => .error e) (.error e) := fun _ _ => rfl

theorem writes_pack (fmt : Fmt) (vs : List Val) (len : Nat) :
    Writes (fun buf off => do return (← msgPackInto fmt buf off vs, len))
      (do return (← pack fmt vs, len)) := by
  intro buf off
  simp only [msgPackInto_eq]
  cases pack fmt vs <;> rfl

/-- A relocatable writer of `n` bytes that announces `l` of them. -/
structure Sized (w : Writer) (n l : Nat) : Prop where
  writes : Writes w (w [] 0)
  size : ∀ {bs len}, w [] 0 = .ok (bs, len) → bs.length = n ∧ len = l

variable {n l : Nat}

theorem sized_error (e : PyErr) : Sized (fun _ _ => .error e) n l :=
  ⟨writes_error e, fun h => nomatch h⟩

theorem sized_pack (fmt : Fmt) (vs : List Val) (l : Nat) :
    Sized (fun buf off => do return (← msgPackInto fmt buf off vs, l)) (calcsize fmt) l := by
  have hw := writes_pack fmt vs l
  refine ⟨hw.relocate, fun h => ?_⟩
  obtain ⟨b, hb, h⟩ := bind_eq_ok.1 (hw.eq_empty.trans h)
  cases h
  exact ⟨length_of_pack hb, rfl⟩

/-- A packed part and then another writer right behind it. -/
theorem Sized.pack_bind (h : Sized w n l) (fmt : Fmt) (vs : List Val) :
    Sized (fun buf off => msgPackInto fmt buf off vs >>= fun buf => w buf (off + calcsize fmt))
      (calcsize fmt + n) l := by
  have hw :
      Writes (fun buf off => msgPackInto fmt buf off vs >>= fun buf => w buf (off + calcsize fmt))
      (do
        let a ← pack fmt vs
        let (b, len) ← w [] 0
        return (a ++ b, len)) := by
    intro buf off
    simp only [msgPackInto_eq]
    cases hp : pack fmt vs with
    | error e => rfl
    | ok a =>
      have ha := length_of_pack hp
      have hg := h.writes (splice buf off a) (off + a.length)
      simp only [Except.map, ← ha, hg, ok_bind]
      cases w [] 0 with
      | error e => rfl
      | ok p => simp [splice_splice]
  refine ⟨hw.relocate, fun he => ?_⟩
  obtain ⟨a, ha, he⟩ := bind_eq_ok.1 (hw.eq_empty.trans he)
  obtain ⟨⟨b, k⟩, hb, he⟩ := bind_eq_ok.1 he
  obtain ⟨hn, rfl⟩ := h.size hb
  cases he
  exact ⟨by rw [length_append, length_of_pack ha, hn], rfl⟩

variable {α : Type} {g : α → Writer}

/-- A value computed beforehand. -/
theorem writes_bind {r : α → PyResult (Bytes × Nat)} (x : PyResult α)
    (h : ∀ a, x = .ok a → Writes (g a) (r a)) :
    Writes (fun buf off => x >>= fun a => g a buf off) (x >>= r) := by
  intro buf off
  cases hx : x with
  | error e => rfl
  | ok a => exact h a hx buf off

/-- A relocatable writer that announces what it writes, rounded up to eight bytes, whether or not it
writes the padding. -/
structure Rounded (w : Writer) : Prop where
  writes : Writes w (w [] 0)
  len_eq : ∀ {bs len}, w [] 0 = .ok (bs, len) → len = roundUp bs.length 8

theorem Rounded.length_le (h : Rounded w) {len : Nat}
    (he : w [] 0 = .ok (bs, len)) : bs.length ≤ len :=
  h.len_eq he ▸ le_roundUp _ (by decide)

theorem Writes.rounded (h : Writes w r)
    (hlen : ∀ bs len, r = .ok (bs, len) → len = roundUp bs.length 8) : Rounded w :=
  ⟨h.relocate, fun he => hlen _ _ (h.eq_empty.trans he)⟩

theorem Sized.rounded (h : Sized w n l) (hl : l = roundUp n 8) : Rounded w := by
  refine ⟨h.writes, fun he => ?_⟩
  obtain ⟨hn, rfl⟩ := h.size he
  rw [hn, hl]

theorem rounded_bind (x : PyResult α) (h : ∀ a, Rounded (g a)) :
    Rounded fun buf off => x >>= fun a => g a buf off := by
  refine (writes_bind x fun a _ => (h a).writes).rounded ?_
  intro bs len he
  obtain ⟨a, -, ha⟩ := bind_eq_ok.1 he
  exact (h a).len_eq ha

/-- Behind the end of a buffer the writer leaves what it leaves in the empty buffer, and it
announces at least that much. -/
structure Behind (w : Writer) : Prop where
  eq : ∀ {buf off}, buf.length ≤ off → w buf off = (w [] 0).map fun p => (splice buf off p.1, p.2)
  length_le : ∀ {bs len}, w [] 0 = .ok (bs, len) → bs.length ≤ len

theorem Rounded.behind (h : Rounded w) : Behind w := ⟨fun _ => h.writes _ _, h.length_le⟩

theorem Rounded.dvd_len (h : Rounded w) {len : Nat} (he : w [] 0 = .ok (bs, len)) : 8 ∣ len :=
  h.len_eq he ▸ dvd_roundUp _ _

/-- What is written, with zeros up to the announced length. -/
def padded (p : Bytes × Nat) : Bytes := p.1 ++ zeros (p.2 - p.1.length)

theorem length_padded {p : Bytes × Nat} (h : p.1.length ≤ p.2) : (padded p).length = p.2 := by
  rw [padded, length_append, length_zeros]
  omega

/-- The bytes of a writer with its padding. -/
def Writer.wire (w : Writer) : Bytes :=
  match w [] 0 with
  | .ok p => padded p
  | .error _ => []

theorem Writer.wire_eq {p : Bytes × Nat} (h : w [] 0 = .ok p) : w.wire = padded p := by
  rw [Writer.wire, h]

theorem Rounded.dvd_wire (h : Rounded w) : 8 ∣ w.wire.length := by
  unfold Writer.wire
  split
  · rename_i p hp
    rw [length_padded (h.length_le hp)]
    exact h.dvd_len hp
  · exact Nat.dvd_zero 8

/-! ### One writer after another -/

/-- Each item is written where the announced length of the one before ends. -/
def writeAll {α : Type} (w : α → Writer) : List α → Bytes → Nat → PyResult (Bytes × Nat)
  | [], buf, offset => .ok (buf, offset)
  | a :: as, buf, offset => do
    let (buf, len) ← w a buf offset
    writeAll w as buf (offset + len)

section WriteAll

variable {w : α → Writer}

theorem writeAll_cons (a : α) (as : List α) (buf : Bytes) (off : Nat) :
    writeAll w (a :: as) buf off = w a buf off >>= fun p => writeAll w as p.1 (off + p.2) := rfl

variable {as : List α}

/-- Items that write as many bytes as they announce leave their bytes joined. -/
theorem writeAll_exact {enc : α → Bytes} (hne : as ≠ [])
    (h : ∀ a ∈ as, Writes (w a) (.ok (enc a, (enc a).length))) (buf : Bytes) (off : Nat) :
    writeAll w as buf off =
      .ok (splice buf off (as.map enc).flatten, off + (as.map enc).flatten.length) := by
  induction as generalizing buf off with
  | nil => exact absurd rfl hne
  | cons a as ih =>
    rw [writeAll_cons, h a (by simp) buf off]
    simp only [Except.map, map_cons, flatten_cons, length_append, ok_bind]
    rcases Decidable.eq_or_ne as [] with rfl | has
    · simp [writeAll]
    · rw [ih has (fun b hb => h b (mem_cons_of_mem a hb)), splice_splice, Nat.add_assoc]

variable {off : Nat}

/-- Behind the end of a buffer, items leave what they leave in the empty buffer. -/
theorem writeAll_behind (hne : as ≠ []) (h : ∀ a, Behind (w a)) (hoff : buf.length ≤ off) :
    writeAll w as buf off =
      (writeAll w as [] 0).map fun p => (splice buf off p.1, off + p.2) := by
  induction as generalizing buf off with
  | nil => exact absurd rfl hne
  | cons a as ih =>
    rw [writeAll_cons, writeAll_cons, (h a).eq hoff]
    cases hw : w a [] 0 with
    | error e => rfl
    | ok p =>
      obtain ⟨bs, len⟩ := p
      have hle := (h a).length_le hw
      simp only [Except.map, ok_bind]
      rcases Decidable.eq_or_ne as [] with rfl | has
      · simp [writeAll]
      · rw [ih has (show (splice buf off bs).length ≤ off + len by simp; omega),
          ih has (show bs.length ≤ 0 + len by omega)]
        cases writeAll w as [] 0 with
        | error e => rfl
        | ok q =>
          have hbs : (splice buf off bs).length = off + bs.length := by simp; omega
          have hgap : off + len - (splice buf off bs).length = len - bs.length := by omega
          have hsplice : splice (splice buf off bs) (off + len) q.1 =
              splice buf off (splice bs len q.1) := by
            rw [splice_of_le (by omega), hgap, splice_of_le hoff, splice_of_le hle,
              splice_of_le hoff]
            simp
          simp only [Except.map, hsplice, Nat.zero_add, Nat.add_assoc]

/-- The last item decides whether the bytes that are there reach the announced end. -/
theorem writeAll_last {a : α} (h : ∀ a, Behind (w a)) {buf' : Bytes} {off' : Nat}
    (hoff : buf.length ≤ off) (he : writeAll w (as ++ [a]) buf off = .ok (buf', off')) :
    ∃ start bs len, w a [] 0 = .ok (bs, len) ∧ off' = start + len ∧
      buf'.length = start + bs.length := by
  induction as generalizing buf off with
  | nil =>
    rw [nil_append, writeAll_cons, (h a).eq hoff] at he
    cases hw : w a [] 0 with
    | error e => rw [hw] at he; cases he
    | ok p =>
      rw [hw] at he
      cases he
      exact ⟨off, p.1, p.2, rfl, rfl, by simp; omega⟩
  | cons b as ih =>
    rw [cons_append, writeAll_cons, (h b).eq hoff] at he
    cases hw : w b [] 0 with
    | error e => rw [hw] at he; cases he
    | ok p =>
      rw [hw] at he
      have hle := (h b).length_le hw
      exact ih (by simp; omega) he

variable {p : Bytes × Nat}

/-- Items that can be written one after another can be written alone; padded to what they announce,
they leave their padded bytes joined. -/
theorem writeAll_padded (h : ∀ a, Behind (w a)) (hoff : buf.length ≤ off)
    (he : writeAll w as buf off = .ok p) : (∀ a ∈ as, ∃ q, w a [] 0 = .ok q) ∧ p.1.length ≤ p.2 ∧
      padded p = padded (buf, off) ++ (as.map fun a => (w a).wire).flatten := by
  induction as generalizing buf off with
  | nil =>
    cases he
    exact ⟨by simp, hoff, by simp⟩
  | cons a as ih =>
    rw [writeAll_cons, (h a).eq hoff] at he
    cases hw : w a [] 0 with
    | error e => rw [hw] at he; cases he
    | ok q =>
      rw [hw] at he
      have hle := (h a).length_le hw
      have hlen : (splice buf off q.1).length = off + q.1.length := by simp; omega
      obtain ⟨hoks, hp, hpadded⟩ := ih (show (splice buf off q.1).length ≤ off + q.2 by omega) he
      have hgap : off + q.2 - (splice buf off q.1).length = q.2 - q.1.length := by omega
      refine ⟨forall_mem_cons.2 ⟨⟨q, hw⟩, hoks⟩, hp, ?_⟩
      rw [hpadded, map_cons, flatten_cons, Writer.wire_eq hw, ← append_assoc]
      rw [padded, hgap, splice_of_le hoff]
      simp only [padded, append_assoc]

/-- All the announced bytes are there if the last item writes all of its own. -/
theorem writeAll_flush_iff (h : ∀ a, Behind (w a)) (hoff : buf.length = off)
    (he : writeAll w as buf off = .ok p) : p.1.length = p.2 ↔
      ∀ a, as.getLast? = some a → ∃ bs, w a [] 0 = .ok (bs, bs.length) := by
  rcases eq_nil_or_concat as with rfl | ⟨as, a, rfl⟩
  · cases he
    simpa using hoff
  · rw [concat_eq_append] at he ⊢
    obtain ⟨start, bs, len, hw, hoff', hlen⟩ := writeAll_last h hoff.le he
    simp only [getLast?_concat, Option.some.injEq, forall_eq', hw, Except.ok.injEq, Prod.mk.injEq]
    constructor
    · exact fun hfull => ⟨bs, rfl, by omega⟩
    · rintro ⟨_, rfl, rfl⟩
      omega

end WriteAll

end BebaCtrl
