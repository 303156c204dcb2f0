import BebaCtrl.Lib.Loop
import BebaCtrl.Lib.PackUtils

/-!
# Encodings of elements

An element of a list on the wire is written by a `Writer` and read by a parser that returns it with
its length. `Encodes w p a bs` ties the two: `bs` is what is written for `a`, all of the announced
length, and wherever `bs` stands the parser returns `a` and that length. Elements are aligned to
eight bytes.

Lists follow from their elements: `Aligned.writeAll` for the writer, `ReadsAt.ends_span` for the
loop of the reader, which does not ask how the bytes came about. Elements that are one packed
structure with a type and a length in front are `FixedLayout`s.
-/

namespace BebaCtrl

open Struct List Py

/-- The writer writes `bs`, all that it announces, a multiple of eight bytes. -/
structure Aligned (w : Writer) (bs : Bytes) : Prop where
  writes : Writes w (.ok (bs, bs.length))
  dvd : 8 ∣ bs.length

section

variable {α : Type} {w : α → Writer} {enc : α → Bytes} {as : List α}

theorem dvd_length_flatten (h : ∀ a ∈ as, 8 ∣ (enc a).length) :
    8 ∣ (as.map enc).flatten.length := by
  induction as with
  | nil => simp
  | cons a as ih =>
    rw [map_cons, flatten_cons, length_append]
    exact Nat.dvd_add (h a (by simp)) (ih fun b hb => h b (mem_cons_of_mem a hb))

/-- Writing a list; without elements nothing is written. -/
theorem Aligned.writeAll (h : ∀ a ∈ as, Aligned (w a) (enc a)) (buf : Bytes) (off : Nat) :
    BebaCtrl.writeAll w as buf off =
      .ok (if as = [] then buf else splice buf off (as.map enc).flatten,
        off + (as.map enc).flatten.length) := by
  split
  · rename_i hnil
    subst hnil
    rfl
  · rename_i hne
    exact writeAll_exact hne (fun a ha => (h a ha).writes) buf off

end

/-- A relocatable writer that fills what it announces is aligned. -/
theorem Rounded.aligned {w : Writer} (h : Rounded w) {bs : Bytes} {len : Nat}
    (he : w [] 0 = .ok (bs, len)) (hlen : bs.length = len) : Aligned w bs := by
  subst hlen
  refine ⟨he ▸ h.writes, ?_⟩
  rw [h.len_eq he]
  exact dvd_roundUp _ _

/-- Wherever `bs` stands, the parser returns `a` and the length of `bs`. -/
structure ReadsAt {α : Type} (p : Bytes → Nat → Py (α × Nat)) (a : α) (bs : Bytes) : Prop where
  pos : 0 < bs.length
  ends : ∀ {buf off}, At buf off bs → Py.Ends (p buf off) (.ok (a, bs.length))

namespace ReadsAt

variable {α β : Type} {p : Bytes → Nat → Py (β × Nat)} {f : α → β} {enc : α → Bytes} {as : List α}

/-- Reading a list. -/
theorem ends_span (h : ∀ a ∈ as, ReadsAt p (f a) (enc a)) {buf : Bytes} {off : Nat}
    (hat : At buf off (as.map enc).flatten) :
    Py.Ends (span (p buf) off (as.map enc).flatten.length) (.ok (as.map f)) := by
  obtain ⟨xs, hends, hxs⟩ : ∃ xs,
      Py.Ends (span (p buf) off (as.map enc).flatten.length) (.ok xs) ∧
      List.Forall₂ (fun a x => f a = x) as xs := by
    refine ends_span_at as ?_ hat
    intro a ha o hato
    exact ⟨(h a ha).pos, f a, (h a ha).ends hato, rfl⟩
  have hmap : as.map f = xs := by
    rw [← forall₂_eq_eq_eq, forall₂_map_left_iff]
    exact hxs
  exact hmap ▸ hends

/-- Reading fewer bytes gives the elements that start in them. -/
theorem of_ends_span (h : ∀ a ∈ as, ReadsAt p (f a) (enc a)) {buf : Bytes} {off n : Nat}
    {xs : List β} (hat : At buf off (as.map enc).flatten) (hn : n ≤ (as.map enc).flatten.length)
    (hends : Py.Ends (span (p buf) off n) (.ok xs)) : xs <+: as.map f := by
  induction as generalizing off n xs with
  | nil =>
    obtain rfl : n = 0 := by simpa using hn
    cases hends.unique (ends_span_zero off)
    exact nil_prefix
  | cons a as ih =>
    rcases ends_loop_ok_cases hends with ⟨-, rfl⟩ | ⟨x, k, ys, -, hx, rfl, hrest⟩
    · exact nil_prefix
    · obtain ⟨rfl, rfl⟩ :=
        Prod.mk.inj (Except.ok.inj (hx.unique ((h a mem_cons_self).ends hat.left)))
      rw [map_cons, flatten_cons, length_append] at hn
      rw [map_cons, cons_prefix_cons]
      exact ⟨rfl, ih (fun b hb => h b (mem_cons_of_mem a hb)) hat.right (by omega) hrest⟩

/-- Reading a list to the end of its bytes. -/
theorem ends_chop (h : ∀ a ∈ as, ReadsAt p (f a) (enc a)) :
    Py.Ends (chop (fun r => p r 0) (as.map enc).flatten) (.ok (as.map f)) := by
  induction as with
  | nil => exact ends_loop_nil rfl
  | cons a as ih =>
    have ha := h a mem_cons_self
    rw [map_cons, flatten_cons, map_cons]
    refine ends_chop_cons ?_ (ha.ends (at_front _ _)) ?_
    · exact append_ne_nil_of_left_ne_nil (length_pos_iff.1 ha.pos) _
    · rw [drop_left]
      exact ih fun b hb => h b (mem_cons_of_mem a hb)

end ReadsAt

structure Encodes {α : Type} (w : Writer) (p : Bytes → Nat → Py (α × Nat)) (a : α) (bs : Bytes) :
    Prop where
  writes : Writes w (.ok (bs, bs.length))
  pos : 0 < bs.length
  dvd : 8 ∣ bs.length
  ends : ∀ {buf off}, At buf off bs → Py.Ends (p buf off) (.ok (a, bs.length))

namespace Encodes

variable {β : Type} {w : Writer} {p : Bytes → Nat → Py (β × Nat)} {b : β} {bs : Bytes}

theorem aligned (h : Encodes w p b bs) : Aligned w bs := ⟨h.writes, h.dvd⟩

theorem reads (h : Encodes w p b bs) : ReadsAt p b bs := ⟨h.pos, h.ends⟩

theorem wire_eq (h : Encodes w p b bs) : w.wire = bs := by
  rw [Writer.wire_eq h.writes.eq_empty.symm]
  simp [padded]

end Encodes

/-- Read an element and keep its length with it. -/
def withLen {β : Type} (p : Bytes → Nat → Py (β × Nat)) (buf : Bytes) (o : Nat) :
    Py ((β × Nat) × Nat) := do
  let (a, len) ← p buf o
  return ((a, len), len)

theorem ReadsAt.withLen {β : Type} {p : Bytes → Nat → Py (β × Nat)} {b : β} {bs : Bytes}
    (h : ReadsAt p b bs) : ReadsAt (withLen p) (b, bs.length) bs :=
  ⟨h.pos, fun hat => (h.ends hat).bind (ends_pure.2 rfl)⟩

/-! ## Elements of a fixed layout -/

/-- Type, pack string and values of an element that is one packed structure. -/
structure FixedLayout where
  type : Nat
  packStr : Fmt
  args : List Nat
  deriving DecidableEq, Repr

namespace FixedLayout

/-- The length is the size of the pack string. -/
def len (l : FixedLayout) : Nat := calcsize l.packStr

def vals (l : FixedLayout) : List Val := (l.type :: l.len :: l.args).map .int

def write (l : FixedLayout) : Writer := fun buf offset => do
  return (← msgPackInto l.packStr buf offset l.vals, l.len)

variable {l : FixedLayout}

theorem write_rounded (hdvd : 8 ∣ l.len) : Rounded l.write :=
  (sized_pack l.packStr l.vals l.len).rounded (roundUp_of_dvd (by decide) hdvd).symm

/-- The type and the length stand in front. -/
theorem header_at {tail : Fmt} (htail : l.packStr = H :: H :: tail)
    (hfit : fits l.packStr l.vals = true) {buf : Bytes} {off : Nat}
    (hat : At buf off (encode l.packStr l.vals)) :
    l.type < 256 ^ 2 ∧ l.len < 256 ^ 2 ∧ (encode tail (l.args.map .int)).length = calcsize tail ∧
      At buf off (encode [H, H] [.int l.type, .int l.len] ++ encode tail (l.args.map .int)) := by
  rw [htail, vals, map_cons, map_cons, fits, fits, Bool.and_eq_true,
    Bool.and_eq_true, decide_eq_true_eq, decide_eq_true_eq] at hfit
  rw [htail, vals, map_cons, map_cons, encode, encode, ← append_assoc] at hat
  exact ⟨hfit.1, hfit.2.1, length_encode hfit.2.2, hat⟩

/-- A parser that returns `b` where the packed values can be unpacked encodes `b`. -/
theorem encodes {β : Type} {p : Bytes → Nat → Py (β × Nat)} {b : β}
    (hfit : fits l.packStr l.vals = true) (hpos : 0 < l.len) (hdvd : 8 ∣ l.len)
    (hp : ∀ buf off, At buf off (encode l.packStr l.vals) →
      unpackFrom l.packStr buf off = .ok l.vals → Py.Ends (p buf off) (.ok (b, l.len))) :
    Encodes l.write p b (encode l.packStr l.vals) := by
  have hlen : (encode l.packStr l.vals).length = l.len := length_encode hfit
  have hw := writes_pack l.packStr l.vals l.len
  rw [pack_eq_ok hfit] at hw
  refine ⟨by rw [hlen]; exact hw, by omega, by rw [hlen]; exact hdvd, ?_⟩
  intro buf off hat
  rw [hlen]
  exact hp buf off hat (unpackFrom_at (exact_of_fits_int hfit) hpos hat)

end FixedLayout

end BebaCtrl
