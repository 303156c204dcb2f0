import Mathlib.Data.List.Basic

/-!
# Sequences of items

A buffer holds items one after the other, and each of them begins with a header that says how long
the item is. A reader that takes the value of an item by a slice does not notice a header that says
more than the buffer holds: then the item `Overruns` its container. A `Sequence` is a buffer that
its items fill exactly.

`parseAll` is the reader's loop, and `Reads` says what one call of the item's parser does. By
`Reads.parseAll_iff` the loop succeeds without an overrun on the sequences of good items, and on
nothing else.
-/

namespace BebaCtrl

open List

variable {α β η ε : Type}

/-- At most `n` iterations of `while buf: x, buf = item(buf)`. -/
def parseItems (item : List α → Except ε (β × List α)) : Nat → List α → Except ε (List β)
  | 0, _ => .ok []
  | _ + 1, [] => .ok []
  | n + 1, a :: buf =>
    match item (a :: buf) with
    | .error e => .error e
    | .ok (x, rest) =>
      match parseItems item n rest with
      | .error e => .error e
      | .ok xs => .ok (x :: xs)

/-- The loop. An item takes at least one element, so that the buffer bounds the iterations. -/
def parseAll (item : List α → Except ε (β × List α)) (buf : List α) : Except ε (List β) :=
  parseItems item buf.length buf

variable {buf : List α} {item : List α → Except ε (β × List α)}

/-- What holds of each item that is parsed holds of all items. -/
theorem forall_of_parseAll {P : β → Prop} (hitem : ∀ {buf x rest}, item buf = .ok (x, rest) → P x)
    {xs : List β} (h : parseAll item buf = .ok xs) : ∀ x ∈ xs, P x := by
  unfold parseAll at h
  generalize buf.length = n at h
  induction n generalizing buf xs with
  | zero => cases h; simp
  | succ n ih =>
    cases buf with
    | nil => cases h; simp
    | cons a buf =>
      rw [parseItems] at h
      split at h
      · cases h
      · rename_i x rest hx
        split at h
        · cases h
        · rename_i ys hys
          cases h
          simpa using ⟨hitem hx, ih hys⟩

/-- The parser takes `frame` off a buffer as one item, whatever follows it, and makes `r` of it. -/
structure TakesFrame (item : List α → Except ε (β × List α)) (frame : List α) (r : Except ε β) :
    Prop where
  ne_nil : frame ≠ []
  item_append : ∀ rest, item (frame ++ rest) = r.map fun x => (x, rest)

variable {γ : Type} {enc : γ → List α} {dec : γ → Except ε β} {cs : List γ}

theorem parseItems_flatten (h : ∀ c ∈ cs, TakesFrame item (enc c) (dec c)) {n : Nat}
    (hn : (cs.map enc).flatten.length ≤ n) :
    parseItems item n (cs.map enc).flatten = cs.mapM dec := by
  induction cs generalizing n with
  | nil => cases n <;> rfl
  | cons c cs ih =>
    have hc := h c (mem_cons_self ..)
    obtain ⟨a, frame, hframe⟩ := exists_cons_of_ne_nil hc.ne_nil
    rw [map_cons, flatten_cons, length_append, hframe, length_cons] at hn
    obtain ⟨n, rfl⟩ : ∃ m, n = m + 1 := ⟨n - 1, by omega⟩
    have htail := @ih (fun c hc => h c (mem_cons_of_mem _ hc)) n (by omega)
    rw [map_cons, flatten_cons, hframe, cons_append, parseItems, ← cons_append,
      ← hframe, hc.item_append, mapM_cons]
    cases dec c with
    | error e => rfl
    | ok x =>
      simp only [Except.map, htail]
      cases cs.mapM dec <;> rfl

/-- The loop over a buffer that was put together from frames. -/
theorem parseAll_flatten (h : ∀ c ∈ cs, TakesFrame item (enc c) (dec c)) :
    parseAll item (cs.map enc).flatten = cs.mapM dec :=
  parseItems_flatten h (Nat.le_refl _)

/-- What the front of a buffer says about the first item: its kind, the size of the header and the
length of the value. -/
structure ItemHeader (η : Type) where
  kind : η
  size : Nat
  length : Nat
  deriving DecidableEq, Repr

namespace ItemHeader

def value (h : ItemHeader η) (buf : List α) : List α := (buf.drop h.size).take h.length

def rest (h : ItemHeader η) (buf : List α) : List α := (buf.drop h.size).drop h.length

def Fits (h : ItemHeader η) (buf : List α) : Prop := h.size + h.length ≤ buf.length

theorem length_rest (h : ItemHeader η) (buf : List α) :
    (h.rest buf).length = buf.length - (h.size + h.length) := by
  simp [rest]

end ItemHeader

/-- Some item, or something in its value, is longer than what holds it. -/
inductive Overruns (head : List α → Option (ItemHeader η)) (inner : η → List α → Prop) :
    List α → Prop where
  | here {buf h} : head buf = some h → ¬h.Fits buf → Overruns head inner buf
  | inside {buf h} : head buf = some h → h.Fits buf → inner h.kind (h.value buf) →
      Overruns head inner buf
  | later {buf h} : head buf = some h → h.Fits buf → Overruns head inner (h.rest buf) →
      Overruns head inner buf

/-- The buffer is filled by items, each of them good together with what follows it. -/
inductive Sequence (head : List α → Option (ItemHeader η)) (Good : η → List α → List α → Prop) :
    List α → Prop where
  | nil : Sequence head Good []
  | cons {buf h} : head buf = some h → h.Fits buf → Good h.kind (h.value buf) (h.rest buf) →
      Sequence head Good (h.rest buf) → Sequence head Good buf

variable {head : List α → Option (ItemHeader η)} {Good Good' : η → List α → List α → Prop}

theorem Sequence.mono (himp : ∀ {kind value rest}, Good kind value rest → Good' kind value rest)
    (h : Sequence head Good buf) : Sequence head Good' buf := by
  induction h with
  | nil => exact .nil
  | cons hhead hfits hgood _ ih => exact .cons hhead hfits (himp hgood) ih

theorem Sequence.congr
    (h : ∀ kind value rest, Good kind value rest ↔ Good' kind value rest) (buf : List α) :
    Sequence head Good buf ↔ Sequence head Good' buf :=
  ⟨fun hseq => hseq.mono (h _ _ _).1, fun hseq => hseq.mono (h _ _ _).2⟩

theorem Sequence.inv (hseq : Sequence head Good buf) (hbuf : buf ≠ []) :
    ∃ h, head buf = some h ∧ Good h.kind (h.value buf) (h.rest buf) ∧
      Sequence head Good (h.rest buf) := by
  cases hseq with
  | nil => contradiction
  | @cons _ h hhead _ hgood htail => exact ⟨h, hhead, hgood, htail⟩

theorem Sequence.of_head {h : ItemHeader η} (hseq : Sequence head Good buf) (hbuf : buf ≠ [])
    (hhead : head buf = some h) :
    Good h.kind (h.value buf) (h.rest buf) ∧ Sequence head Good (h.rest buf) := by
  obtain ⟨h', hhead', hrest⟩ := hseq.inv hbuf
  obtain rfl : h = h' := Option.some.inj (hhead.symm.trans hhead')
  exact hrest

/-- One call of the parser reads the header and then the value as it is, cut short or not. -/
structure Reads (head : List α → Option (ItemHeader η)) (item : List α → Except ε (β × List α))
    (Good : η → List α → List α → Prop) : Prop where
  size_pos : ∀ {buf h}, head buf = some h → 0 < h.size ∧ h.size ≤ buf.length
  item_iff : ∀ {buf rest}, (∃ x, item buf = .ok (x, rest)) ↔
    ∃ h, head buf = some h ∧ Good h.kind (h.value buf) (h.rest buf) ∧ rest = h.rest buf

namespace Reads

variable {head : List α → Option (ItemHeader η)} {item : List α → Except ε (β × List α)}
  {Good : η → List α → List α → Prop} {inner : η → List α → Prop}

theorem parseItems_succ {n : Nat} (hbuf : buf ≠ []) :
    (∃ xs, parseItems item (n + 1) buf = .ok xs) ↔
      ∃ x rest, item buf = .ok (x, rest) ∧ ∃ xs, parseItems item n rest = .ok xs := by
  cases buf with
  | nil => contradiction
  | cons a buf =>
    rw [parseItems]
    cases hitem : item (a :: buf) with
    | error e => simp
    | ok r =>
      obtain ⟨x, rest⟩ := r
      cases hrest : parseItems item n rest <;> simp [hrest]

variable (hreads : Reads head item Good)
include hreads

theorem head_nil : head [] = none := by
  cases hhead : head [] with
  | none => rfl
  | some h =>
    have hsize := hreads.size_pos hhead
    simp only [length_nil] at hsize
    omega

theorem not_overruns_nil : ¬Overruns head inner [] := by
  intro h
  have hnil := hreads.head_nil
  cases h <;> simp_all

theorem length_rest_lt {h : ItemHeader η} (hhead : head buf = some h) :
    (h.rest buf).length < buf.length := by
  have hsize := hreads.size_pos hhead
  rw [ItemHeader.length_rest]
  omega

theorem parseItems_iff (n : Nat) (buf : List α) (hn : buf.length ≤ n) :
    (∃ xs, parseItems item n buf = .ok xs) ∧ ¬Overruns head inner buf ↔
      Sequence head (fun kind value rest => Good kind value rest ∧ ¬inner kind value) buf := by
  induction n generalizing buf with
  | zero =>
    obtain rfl : buf = [] := eq_nil_of_length_eq_zero (by omega)
    exact iff_of_true ⟨⟨[], rfl⟩, hreads.not_overruns_nil⟩ .nil
  | succ n ih =>
    rcases eq_or_ne buf [] with rfl | hbuf
    · exact iff_of_true ⟨⟨[], rfl⟩, hreads.not_overruns_nil⟩ .nil
    rw [parseItems_succ hbuf]
    constructor
    · rintro ⟨⟨x, rest, hitem, hrest⟩, hover⟩
      obtain ⟨h, hhead, hgood, rfl⟩ := hreads.item_iff.1 ⟨x, hitem⟩
      have hfits : h.Fits buf := by
        by_contra hfits
        exact hover (.here hhead hfits)
      have hlt := hreads.length_rest_lt hhead
      refine .cons hhead hfits ⟨hgood, fun hinner => hover (.inside hhead hfits hinner)⟩ ?_
      exact (ih _ (by omega)).1 ⟨hrest, fun hlater => hover (.later hhead hfits hlater)⟩
    · intro hseq
      cases hseq with
      | nil => contradiction
      | @cons _ h hhead hfits hgood htail =>
        have hlt := hreads.length_rest_lt hhead
        obtain ⟨hrest, hover⟩ := (ih _ (by omega)).2 htail
        obtain ⟨x, hitem⟩ := hreads.item_iff.2 ⟨h, hhead, hgood.1, rfl⟩
        refine ⟨⟨x, _, hitem, hrest⟩, fun hoverruns => ?_⟩
        -- an overrun reads the same header
        cases hoverruns with
        | here hhead' hfits' => grind
        | inside hhead' _ hinner => grind
        | later hhead' _ hlater => grind

theorem parseAll_iff (buf : List α) :
    (∃ xs, parseAll item buf = .ok xs) ∧ ¬Overruns head inner buf ↔
      Sequence head (fun kind value rest => Good kind value rest ∧ ¬inner kind value) buf :=
  hreads.parseItems_iff buf.length buf (Nat.le_refl _)

/-- A parser that notices a value that is cut short. -/
theorem parseAll_iff_of_fits
    (hfits : ∀ {buf h}, head buf = some h → Good h.kind (h.value buf) (h.rest buf) → h.Fits buf)
    (buf : List α) : (∃ xs, parseAll item buf = .ok xs) ↔ Sequence head Good buf := by
  have hover : ∀ n (buf : List α), buf.length ≤ n → (∃ xs, parseItems item n buf = .ok xs) →
      ¬Overruns head (fun _ _ => False) buf := by
    intro n
    induction n with
    | zero =>
      intro buf hn _
      obtain rfl : buf = [] := eq_nil_of_length_eq_zero (by omega)
      exact hreads.not_overruns_nil
    | succ n ih =>
      intro buf hn hok
      rcases eq_or_ne buf [] with rfl | hbuf
      · exact hreads.not_overruns_nil
      obtain ⟨x, rest, hitem, hrest⟩ := (parseItems_succ hbuf).1 hok
      obtain ⟨h, hhead, hgood, rfl⟩ := hreads.item_iff.1 ⟨x, hitem⟩
      have hlt := hreads.length_rest_lt hhead
      intro hoverruns
      cases hoverruns with
      | here hhead' hfits' => exact hfits' (hfits hhead' (by grind))
      | inside _ _ hinner => exact hinner
      | later hhead' _ hlater' => grind
  constructor
  · intro hok
    exact ((hreads.parseAll_iff buf).1 ⟨hok, hover _ buf (Nat.le_refl _) hok⟩).mono And.left
  · intro hseq
    have hseq' := hseq.mono fun {kind value rest} h => And.intro h not_false
    exact ((hreads.parseAll_iff buf).2 hseq').1

end Reads

/-- Items of a fixed size, without a header of their own. -/
def fixedHead (size : Nat) (buf : List α) : Option (ItemHeader Unit) :=
  if size ≤ buf.length then some ⟨(), size, 0⟩ else none

variable {size : Nat}

theorem fixedHead_eq_some {h : ItemHeader Unit} :
    fixedHead size buf = some h ↔ size ≤ buf.length ∧ h = ⟨(), size, 0⟩ := by
  unfold fixedHead
  grind

variable {read : List α → β} {e : ε}

theorem Reads.fixed (hsize : 0 < size) :
    Reads (fixedHead size)
      (fun buf => if buf.length < size then .error e else .ok (read buf, buf.drop size))
      fun _ _ _ => True where
  size_pos := by
    intro buf h hhead
    obtain ⟨hle, rfl⟩ := fixedHead_eq_some.1 hhead
    exact ⟨hsize, hle⟩
  item_iff := by
    intro buf rest
    split
    · rename_i hlt
      exact iff_of_false (by simp) (by simp [fixedHead, Nat.not_le.2 hlt])
    · rename_i hle
      simp [fixedHead_eq_some, Nat.not_lt.1 hle, ItemHeader.rest, eq_comm]

theorem sequence_fixedHead_iff :
    Sequence (fixedHead size) (fun _ _ _ => True) buf ↔ size ∣ buf.length := by
  constructor
  · intro h
    induction h with
    | nil => exact Nat.dvd_zero _
    | cons hhead _ _ _ ih =>
      obtain ⟨hle, rfl⟩ := fixedHead_eq_some.1 hhead
      rw [ItemHeader.length_rest] at ih
      exact (Nat.dvd_sub_iff_left hle (Nat.dvd_refl _)).1 ih
  · rintro ⟨k, hk⟩
    induction k generalizing buf with
    | zero =>
      obtain rfl := eq_nil_of_length_eq_zero hk
      exact .nil
    | succ k ih =>
      have hle : size ≤ buf.length := by
        rw [hk]
        exact Nat.le_mul_of_pos_right _ (Nat.succ_pos k)
      refine .cons (fixedHead_eq_some.2 ⟨hle, rfl⟩) hle trivial (ih ?_)
      rw [ItemHeader.length_rest, hk, Nat.mul_succ]
      exact Nat.add_sub_cancel ..

/-- Items of a fixed size fill the buffer if there are enough elements. -/
theorem parseAll_fixed_iff (hsize : 0 < size) (buf : List α) :
    (∃ xs, parseAll (fun buf => if buf.length < size then .error e
      else .ok (read buf, buf.drop size)) buf = .ok xs) ↔ size ∣ buf.length := by
  refine ((Reads.fixed hsize).parseAll_iff_of_fits ?_ buf).trans sequence_fixedHead_iff
  intro buf h hhead _
  obtain ⟨hle, rfl⟩ := fixedHead_eq_some.1 hhead
  exact hle

end BebaCtrl
