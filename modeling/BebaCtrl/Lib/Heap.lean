import BebaCtrl.Lib.State
import Mathlib.Order.Basic

/-!
# Mutable objects

A `Store` holds the mutable objects of one type, each at its own address. Stores are ordered by what
they still hold: code that makes objects, and writes to no others than those it made, goes from a
store to a larger one.

`PyM.Follows` compares code on mutable objects with a computation on values. The state only grows,
and the code ends as the computation does.
-/

namespace BebaCtrl

open Function

/-- The address of a mutable object. -/
abbrev Ref := Nat

/-- The objects at the addresses below `next`. -/
structure Store (α : Type) where
  read : Ref → α
  next : Ref

namespace Store

variable {α : Type}

/-- A new object, at the address `next`. -/
def alloc (s : Store α) (a : α) : Store α := ⟨Function.update s.read s.next a, s.next + 1⟩

/-- New objects, at the addresses from `next` on. -/
def allocAll (s : Store α) (as : List α) : Store α := as.foldl alloc s

def write (s : Store α) (r : Ref) (a : α) : Store α := { s with read := Function.update s.read r a }

/-- The objects of the first store are in the second one, as they were. -/
structure Grows (s t : Store α) : Prop where
  next_le : s.next ≤ t.next
  read_eq : ∀ r < s.next, t.read r = s.read r

theorem Grows.trans {s t u : Store α} (h : Grows s t) (h' : Grows t u) : Grows s u where
  next_le := Nat.le_trans h.next_le h'.next_le
  read_eq r hr := (h'.read_eq r (Nat.lt_of_lt_of_le hr h.next_le)).trans (h.read_eq r hr)

instance : Preorder (Store α) where
  le := Grows
  le_refl _ := ⟨Nat.le_refl _, fun _ _ => rfl⟩
  le_trans _ _ _ := Grows.trans

section

variable (s : Store α)

@[simp] theorem read_alloc_next (a : α) : (s.alloc a).read s.next = a :=
  update_self ..

theorem read_alloc_of_ne (a : α) {r : Ref} (h : r ≠ s.next) :
    (s.alloc a).read r = s.read r := update_of_ne h ..

@[simp] theorem read_write_self (r : Ref) (a : α) : (s.write r a).read r = a :=
  update_self ..

theorem read_write_of_ne (a : α) {r r' : Ref} (h : r' ≠ r) :
    (s.write r a).read r' = s.read r' := update_of_ne h ..

theorem le_alloc (a : α) : s ≤ s.alloc a :=
  Grows.mk (Nat.le_succ _) fun _ hr => read_alloc_of_ne s a (Nat.ne_of_lt hr)

end

/-- A write to an object that the smaller store does not have. -/
theorem le_write {s t : Store α} (h : s ≤ t) {r : Ref} (hr : s.next ≤ r) (a : α) :
    s ≤ t.write r a := by
  have hgrows : Grows s t := h
  refine Grows.mk hgrows.next_le ?_
  intro r' hr'
  have hne : r' ≠ r := Nat.ne_of_lt (Nat.lt_of_lt_of_le hr' hr)
  exact (read_write_of_ne t a hne).trans (hgrows.read_eq r' hr')

theorem le_allocAll (s : Store α) (as : List α) : s ≤ s.allocAll as := by
  induction as generalizing s with
  | nil => exact le_rfl
  | cons a as ih => exact (le_alloc s a).trans (ih (s.alloc a))

@[simp] theorem next_allocAll (s : Store α) (as : List α) :
    (s.allocAll as).next = s.next + as.length := by
  induction as generalizing s with
  | nil => rfl
  | cons a as ih =>
    have h := ih (s.alloc a)
    exact h.trans (Nat.add_right_comm s.next 1 as.length)

/-- The new objects are the given ones, in order. -/
theorem map_read_allocAll (s : Store α) (as : List α) :
    (List.range' s.next as.length).map (s.allocAll as).read = as := by
  induction as generalizing s with
  | nil => rfl
  | cons a as ih =>
    have hhead : ((s.alloc a).allocAll as).read s.next = a :=
      (Grows.read_eq (le_allocAll (s.alloc a) as) s.next (Nat.lt_succ_self _)).trans
        (read_alloc_next s a)
    have htail := ih (s.alloc a)
    exact congrArg₂ List.cons hhead htail

end Store

namespace PyM

variable {σ α β γ δ : Type} [Preorder σ]

/-- Started in `s`, the code ends in a larger state, with a value that stands for the value of `r`,
or with the exception that `r` is. -/
def Follows (s : σ) (m : PyM σ α) (r : PyResult β) (R : α → β → σ → Prop) : Prop :=
  s ≤ (m s).2 ∧
    match (m s).1, r with
    | .ok a, .ok b => R a b (m s).2
    | .error e, .error e' => e = e'
    | _, _ => False

variable {s : σ} {R R' : α → β → σ → Prop} {S : γ → δ → σ → Prop}

theorem Follows.pure {a : α} {b : β} (h : R a b s) :
    Follows s (Pure.pure a) (Pure.pure b) R := ⟨le_rfl, h⟩

theorem Follows.throw {e : PyErr} : Follows s (throw e : PyM σ α) (.error e) R := ⟨le_rfl, rfl⟩

theorem Follows.lift (r : PyResult α) : Follows s (liftM r : PyM σ α) r fun a b _ => a = b := by
  refine ⟨le_rfl, ?_⟩
  cases r <;> rfl

variable {r : PyResult β}

theorem Follows.get_bind {f : σ → PyM σ α} (h : Follows s (f s) r R) :
    Follows s (get >>= f) r R := h

variable {m : PyM σ α}

/-- The two ways in which the code and the computation can end. -/
theorem Follows.cases (h : Follows s m r R) :
    ∃ s', s ≤ s' ∧ ((∃ e, m s = (.error e, s') ∧ r = .error e) ∨
      ∃ a b, m s = (.ok a, s') ∧ r = .ok b ∧ R a b s') := by
  unfold Follows at h
  cases hms : m s with
  | mk res s' =>
    rw [hms] at h
    obtain ⟨hle, hres⟩ := h
    refine ⟨s', hle, ?_⟩
    cases res with
    | error e =>
      cases r with
      | error e' =>
        cases hres
        exact .inl ⟨e, rfl, rfl⟩
      | ok b => exact hres.elim
    | ok a =>
      cases r with
      | error e' => exact hres.elim
      | ok b => exact .inr ⟨a, b, rfl, rfl, hres⟩

theorem Follows.of_error {s' : σ} {e : PyErr} (hm : m s = (.error e, s')) (hle : s ≤ s') :
    Follows s m (.error e : PyResult β) R := by
  unfold Follows
  rw [hm]
  exact ⟨hle, rfl⟩

theorem Follows.bind {f : α → PyM σ γ} {g : β → PyResult δ} (hm : Follows s m r R)
    (hf : ∀ a b s', s ≤ s' → R a b s' → Follows s' (f a) (g b) S) :
    Follows s (m >>= f) (r >>= g) S := by
  obtain ⟨s', hle, ⟨e, hms, rfl⟩ | ⟨a, b, hms, rfl, hR⟩⟩ := hm.cases
  · exact .of_error (bind_of_error hms f) hle
  · have hfa := hf a b s' hle hR
    unfold Follows
    rw [bind_of_ok hms f]
    exact ⟨hle.trans hfa.1, hfa.2⟩

/-- A first part that the computation does not have. -/
theorem Follows.bind_left {b : β} {f : α → PyM σ γ} {r : PyResult δ} (hm : Follows s m (.ok b) R)
    (hf : ∀ a s', s ≤ s' → R a b s' → Follows s' (f a) r S) :
    Follows s (m >>= f) r S := by
  obtain ⟨s', hle, ⟨e, -, hb⟩ | ⟨a, b', hms, hb, hR⟩⟩ := hm.cases
  · cases hb
  · cases hb
    have hfa := hf a s' hle hR
    unfold Follows
    rw [bind_of_ok hms f]
    exact ⟨hle.trans hfa.1, hfa.2⟩

end PyM

end BebaCtrl
