import Mathlib.Data.List.Infix
import BebaCtrl.Lib.Bytes
import BebaCtrl.Lib.Python

/-!
# Loops driven by their input

Code with `while` loops over its input may raise, and it may run forever. Such code lives in `Py`,
a computation that is given fuel for its loops. More fuel never changes an outcome, so `Ends p r`
(some amount of fuel gives `r`) has at most one `r`.

The only loop shape needed is `loop`: while a test on a cursor holds, the body reads an element
and its length, and the cursor moves on by that length. An element of length zero leaves the cursor
in place; such a loop does not end.
-/

namespace BebaCtrl

open List Option

/-- A computation whose loops are bounded by fuel: `none` when the fuel ran out. -/
structure Py (α : Type) where
  run : Nat → Option (PyResult α)
  mono : ∀ {n m : Nat} {r : PyResult α}, n ≤ m → run n = some r → run m = some r

namespace Py

variable {α β κ : Type}

def ofExcept (r : PyResult α) : Py α := ⟨fun _ => some r, fun _ => id⟩

def raise (e : PyErr) : Py α := ofExcept (.error e)

/-- What `g` gives for the value of the first part, if there is one. -/
def andThen (r : Option (PyResult α)) (g : α → Option (PyResult β)) : Option (PyResult β) :=
  match r with
  | none => none
  | some (.error e) => some (.error e)
  | some (.ok a) => g a

/-- More fuel for either part. -/
theorem andThen_mono {r r' : Option (PyResult α)} {g g' : α → Option (PyResult β)}
    (hr : ∀ s, r = some s → r' = some s) (hg : ∀ a s, g a = some s → g' a = some s)
    {s : PyResult β} (h : andThen r g = some s) : andThen r' g' = some s := by
  rcases r with _ | e | a
  · cases h
  · rw [hr _ rfl]
    exact h
  · rw [hr _ rfl]
    exact hg a s h

/-- Run `x` and then `f` on its value, with the same fuel. -/
def bind (x : Py α) (f : α → Py β) : Py β where
  run n := andThen (x.run n) fun a => (f a).run n
  mono h := andThen_mono (fun _ => x.mono h) fun a _ => (f a).mono h

instance : Monad Py where
  pure a := ofExcept (.ok a)
  bind := bind

instance : MonadLift PyResult Py := ⟨ofExcept⟩

variable {x : Py α} {f : α → Py β} {a : α} {e : PyErr} {n m k : Nat}

theorem run_bind (x : Py α) (f : α → Py β) (n : Nat) :
    (x >>= f).run n = andThen (x.run n) fun a => (f a).run n := rfl

/-! ## Outcomes -/

def Ends (p : Py α) (r : PyResult α) : Prop := ∃ n, p.run n = some r

variable {p : Py α} {r s : PyResult α}

theorem Ends.unique (hr : Ends p r) (hs : Ends p s) : r = s := by
  obtain ⟨n, hn⟩ := hr
  obtain ⟨m, hm⟩ := hs
  have hmax := p.mono (Nat.le_max_left n m) hn
  rw [p.mono (Nat.le_max_right n m) hm] at hmax
  exact (some.inj hmax).symm

@[simp] theorem ends_ofExcept : Ends (ofExcept r) s ↔ r = s :=
  ⟨fun ⟨_, h⟩ => some.inj h, fun h => ⟨0, by rw [← h]; rfl⟩⟩

@[simp] theorem ends_lift : Ends (liftM r : Py α) s ↔ r = s := ends_ofExcept

@[simp] theorem ends_pure : Ends (pure a : Py α) r ↔ .ok a = r :=
  ends_ofExcept

theorem Ends.bind {r : PyResult β} (hx : Ends x (.ok a)) (hf : Ends (f a) r) :
    Ends (x >>= f) r := by
  obtain ⟨n, hn⟩ := hx
  obtain ⟨m, hm⟩ := hf
  refine ⟨max n m, ?_⟩
  rw [run_bind, x.mono (Nat.le_max_left n m) hn]
  exact (f a).mono (Nat.le_max_right n m) hm

theorem Ends.bind_error (hx : Ends x (.error e)) : Ends (x >>= f) (.error e) := by
  obtain ⟨n, hn⟩ := hx
  exact ⟨n, by rw [run_bind, hn]; rfl⟩

/-- How a sequence that returns a value can have come to it. -/
theorem Ends.of_bind {b : β} (h : Ends (x >>= f) (.ok b)) :
    ∃ a, Ends x (.ok a) ∧ Ends (f a) (.ok b) := by
  obtain ⟨n, hn⟩ := h
  rw [run_bind] at hn
  rcases hx : x.run n with _ | e | a
  · rw [hx] at hn
    cases hn
  · rw [hx] at hn
    cases hn
  · rw [hx] at hn
    exact ⟨a, ⟨n, hx⟩, n, hn⟩

theorem lift_ok_bind (a : α) (f : α → Py β) : (liftM (Except.ok a : PyResult α) >>= f) = f a := rfl

/-! ## Loops -/

def loopRun (cond : κ → Bool) (next : κ → Nat → κ) (body : κ → Py (β × Nat)) :
    Nat → κ → Option (PyResult (List β))
  | 0, _ => none
  | n + 1, c =>
    if cond c then
      andThen ((body c).run n) fun (x, k) =>
        (loopRun cond next body n (next c k)).map fun xs => xs.map (x :: ·)
    else some (.ok [])

variable {r : PyResult (List β)} {xs : List β} {x : β}

section Loop

variable {cond : κ → Bool} {next : κ → Nat → κ} {body : κ → Py (β × Nat)} {c : κ}

theorem loopRun_mono (hnm : n ≤ m) (h : loopRun cond next body n c = some r) :
    loopRun cond next body m c = some r := by
  induction n generalizing m c r with
  | zero => cases h
  | succ n ih =>
    obtain ⟨m, rfl⟩ : ∃ j, m = j + 1 := ⟨m - 1, by omega⟩
    rw [loopRun] at h ⊢
    split at h
    · rename_i hc
      rw [if_pos hc]
      refine andThen_mono (fun _ => (body c).mono (by omega)) (fun ⟨x, k⟩ s hs => ?_) h
      obtain ⟨xs, hxs, rfl⟩ := map_eq_some_iff.1 hs
      exact map_eq_some_iff.2 ⟨xs, ih (by omega) hxs, rfl⟩
    · rename_i hc
      rw [if_neg hc]
      exact h

/-- `while cond(c): x = body(c); out.append(x); c = next(c, x.len)`, returning `out`. -/
def loop (cond : κ → Bool) (next : κ → Nat → κ) (body : κ → Py (β × Nat)) (c : κ) :
    Py (List β) where
  run n := loopRun cond next body n c
  mono := loopRun_mono

theorem ends_loop_nil (h : cond c = false) : Ends (loop cond next body c) (.ok []) :=
  ⟨1, by simp [loop, loopRun, h]⟩

section

variable (h : cond c = true)
include h

theorem run_loop_succ (n : Nat) : (loop cond next body c).run (n + 1) =
    andThen ((body c).run n) fun (x, k) =>
      ((loop cond next body (next c k)).run n).map fun xs => xs.map (x :: ·) :=
  if_pos h

theorem ends_loop_error (hb : Ends (body c) (.error e)) :
    Ends (loop cond next body c) (.error e) := by
  obtain ⟨n, hn⟩ := hb
  exact ⟨n + 1, by rw [run_loop_succ h, hn]; rfl⟩

theorem ends_loop_later (hb : Ends (body c) (.ok (x, k)))
    (hrest : Ends (loop cond next body (next c k)) r) :
    Ends (loop cond next body c) (r.map (x :: ·)) := by
  obtain ⟨n, hn⟩ := hb
  obtain ⟨m, hm⟩ := hrest
  refine ⟨max n m + 1, ?_⟩
  rw [run_loop_succ h, (body c).mono (Nat.le_max_left n m) hn]
  exact congrArg (Option.map _) ((loop cond next body _).mono (Nat.le_max_right n m) hm)

theorem ends_loop_cons (hb : Ends (body c) (.ok (x, k)))
    (hrest : Ends (loop cond next body (next c k)) (.ok xs)) :
    Ends (loop cond next body c) (.ok (x :: xs)) :=
  ends_loop_later h hb hrest

end

/-- How a loop that returns a list can have come to it. -/
theorem ends_loop_ok_cases (h : Ends (loop cond next body c) (.ok xs)) :
    (cond c = false ∧ xs = []) ∨ ∃ x k ys, cond c = true ∧ Ends (body c) (.ok (x, k)) ∧
      xs = x :: ys ∧ Ends (loop cond next body (next c k)) (.ok ys) := by
  cases hc : cond c with
  | false =>
    cases h.unique (ends_loop_nil hc)
    exact .inl ⟨rfl, rfl⟩
  | true =>
    obtain ⟨_ | n, hn⟩ := h
    · cases hn
    · rw [run_loop_succ hc] at hn
      rcases hb : (body c).run n with _ | e | ⟨x, k⟩
      · rw [hb] at hn
        cases hn
      · rw [hb] at hn
        cases hn
      · rw [hb] at hn
        obtain ⟨_ | ys, hrest, hxs⟩ := map_eq_some_iff.1 hn
        · cases hxs
        · cases hxs
          exact .inr ⟨x, k, ys, rfl, ⟨n, hb⟩, rfl, n, hrest⟩

end Loop

/-! ## Elements of a span and of a rest -/

/-- Elements from `offset` on, while `length` bytes remain:
`while length > 0: x = body(offset); offset += x.len; length -= x.len`. -/
def span (body : Nat → Py (β × Nat)) (offset length : Nat) : Py (List β) :=
  loop (fun c => decide (0 < c.2)) (fun c k => (c.1 + k, c.2 - k)) (fun c => body c.1)
    (offset, length)

/-- Elements of what is left of a buffer: `while rest: x = body(rest); rest = rest[x.len:]`. -/
def chop (body : Bytes → Py (β × Nat)) (rest : Bytes) : Py (List β) :=
  loop (fun r => !r.isEmpty) (fun r k => r.drop k) body rest

/-- `while rest: x, rest = body(rest)`, where the body returns an end of its argument. -/
def chopRest (body : Bytes → Py (β × Bytes)) (rest : Bytes) : Py (List β) :=
  chop (fun r => do
    let (x, r') ← body r
    return (x, r.length - r'.length)) rest

variable {body : Nat → Py (β × Nat)}

/-! ### Elements of a rest -/

variable {rest : Bytes} {x : β}

theorem ends_chop_cons {body : Bytes → Py (β × Nat)} (hne : rest ≠ [])
    (hb : Ends (body rest) (.ok (x, k))) (hrest : Ends (chop body (rest.drop k)) (.ok xs)) :
    Ends (chop body rest) (.ok (x :: xs)) :=
  ends_loop_cons (by simpa using hne) hb hrest

/-- How the loop over a rest can have come to a list. -/
theorem ends_chop_ok_cases {body : Bytes → Py (β × Nat)} (h : Ends (chop body rest) (.ok xs)) :
    (rest = [] ∧ xs = []) ∨ ∃ x k ys, rest ≠ [] ∧ Ends (body rest) (.ok (x, k)) ∧ xs = x :: ys ∧
      Ends (chop body (rest.drop k)) (.ok ys) := by
  rcases ends_loop_ok_cases h with ⟨hc, hxs⟩ | ⟨x, k, ys, hc, hb, hxs, hrest⟩
  · exact .inl ⟨by simpa using hc, hxs⟩
  · exact .inr ⟨x, k, ys, by simpa using hc, hb, hxs, hrest⟩

/-- A body that takes the front off what is left. -/
theorem ends_chopRest_append {body : Bytes → Py (β × Bytes)} {front rest : Bytes}
    (hne : front ≠ []) (hb : Ends (body (front ++ rest)) (.ok (x, rest)))
    (hrest : Ends (chopRest body rest) (.ok xs)) :
    Ends (chopRest body (front ++ rest)) (.ok (x :: xs)) := by
  refine ends_chop_cons (k := front.length) (by simp [hne]) (hb.bind (ends_pure.2 ?_)) ?_
  · rw [length_append, Nat.add_sub_cancel]
  · rw [drop_left]
    exact hrest

variable {ι : Type} {enc : ι → Bytes}

/-- The round trip of a rest: a body that takes each item off the front reads the list of items from
the joined bytes. -/
theorem ends_chopRest_flatten {body : Bytes → Py (β × Bytes)}
    {f : ι → β} {items : List ι} (hne : ∀ i ∈ items, enc i ≠ [])
    (hbody : ∀ i ∈ items, ∀ rest, Ends (body (enc i ++ rest)) (.ok (f i, rest))) :
    Ends (chopRest body (items.map enc).flatten) (.ok (items.map f)) := by
  induction items with
  | nil => exact ends_loop_nil rfl
  | cons i items ih =>
    rw [forall_mem_cons] at hne hbody
    exact ends_chopRest_append hne.1 (hbody.1 _) (ih hne.2 hbody.2)

theorem ends_chopRest_ok_cases {body : Bytes → Py (β × Bytes)}
    (h : Ends (chopRest body rest) (.ok xs)) :
    (rest = [] ∧ xs = []) ∨ ∃ x r ys, rest ≠ [] ∧ Ends (body rest) (.ok (x, r)) ∧ xs = x :: ys ∧
      Ends (chopRest body (rest.drop (rest.length - r.length))) (.ok ys) := by
  rcases ends_chop_ok_cases h with hnil | ⟨x, k, ys, hne, hb, hxs, hrest⟩
  · exact .inl hnil
  · obtain ⟨⟨y, r⟩, hbody, hpure⟩ := hb.of_bind
    cases ends_pure.1 hpure
    exact .inr ⟨x, r, ys, hne, hbody, hxs, hrest⟩

/-! ### Elements of a span -/

theorem ends_span_zero (offset : Nat) : Ends (span body offset 0) (.ok []) :=
  ends_loop_nil (by simp)

variable {offset length : Nat}

theorem ends_span_cons (hk : 0 < k)
    (hb : Ends (body offset) (.ok (x, k))) (hrest : Ends (span body (offset + k) length) (.ok xs)) :
    Ends (span body offset (k + length)) (.ok (x :: xs)) := by
  refine ends_loop_cons (k := k) (by simp; omega) hb ?_
  rw [Nat.add_sub_cancel_left]
  exact hrest

theorem ends_span_error (hlen : 0 < length) (hb : Ends (body offset) (.error e)) :
    Ends (span body offset length) (.error e) :=
  ends_loop_error (by simpa using hlen) hb

theorem ends_span_later (hlen : 0 < length)
    (hb : Ends (body offset) (.ok (x, k))) (hrest : Ends (span body (offset + k) (length - k)) r) :
    Ends (span body offset length) (r.map (x :: ·)) :=
  ends_loop_later (by simpa using hlen) hb hrest

/-- A span that returns has passed all its bytes. -/
theorem le_sum_of_ends_span {size : β → Nat}
    (hsize : ∀ o x k, Ends (body o) (.ok (x, k)) → k = size x)
    (h : Ends (span body offset length) (.ok xs)) : length ≤ (xs.map size).sum := by
  induction xs generalizing offset length with
  | nil =>
    rcases ends_loop_ok_cases h with ⟨hc, -⟩ | ⟨x, k, ys, -, -, hxs, -⟩
    · simpa using hc
    · cases hxs
  | cons x xs ih =>
    rcases ends_loop_ok_cases h with ⟨-, hxs⟩ | ⟨y, k, ys, -, hb, hxs, hrest⟩
    · cases hxs
    · cases hxs
      have hle := ih hrest
      rw [map_cons, sum_cons, ← hsize _ _ _ hb]
      omega

/-- The round trip of a span: a body that reads each item from its bytes reads the list of items
from the joined bytes. -/
theorem ends_span_at {P : ι → β → Prop} {buf : Bytes} (items : List ι)
    (hbody : ∀ i ∈ items, ∀ o, At buf o (enc i) → 0 < (enc i).length ∧
      ∃ x, Ends (body o) (.ok (x, (enc i).length)) ∧ P i x)
    (hat : At buf offset (items.map enc).flatten) :
    ∃ xs, Ends (span body offset (items.map enc).flatten.length) (.ok xs) ∧
      List.Forall₂ P items xs := by
  induction items generalizing offset with
  | nil => exact ⟨[], ends_span_zero offset, .nil⟩
  | cons i items ih =>
    obtain ⟨hpos, x, hx, hp⟩ := hbody i (by simp) offset hat.left
    obtain ⟨xs, hxs, hps⟩ := ih (fun j hj => hbody j (mem_cons_of_mem i hj)) hat.right
    rw [map_cons, flatten_cons, length_append]
    exact ⟨x :: xs, ends_span_cons hpos hx hxs, .cons hp hps⟩

end Py

end BebaCtrl
