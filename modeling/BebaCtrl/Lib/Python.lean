import Mathlib.Data.List.Forall2

/-!
# Python exceptions

Straight-line code lives in `PyResult`, where an exception is an error.
-/

namespace BebaCtrl

open List

/-- The exceptions the modelled code distinguishes; `other` holds every further class. -/
inductive PyErr where
  | structError
  | assertionError
  | keyError
  | typeError
  | attributeError
  | valueError
  | indexError
  | other (name : String)
  deriving DecidableEq, Repr

abbrev PyResult := Except PyErr

/-- The `assert` statement. -/
def pyAssert (p : Prop) [Decidable p] : PyResult Unit :=
  if p then .ok () else .error .assertionError

variable {p : Prop}

@[simp] theorem pyAssert_pos [Decidable p] (h : p) : pyAssert p = .ok () := if_pos h

@[simp] theorem pyAssert_neg [Decidable p] (h : ¬p) :
    pyAssert p = .error .assertionError := if_neg h

theorem of_pyAssert [Decidable p] {u : Unit} (h : pyAssert p = .ok u) : p := by
  by_contra hp
  rw [pyAssert_neg hp] at h
  cases h

variable {ε α β : Type}

@[simp] theorem ok_bind (a : α) (f : α → Except ε β) : (Except.ok a >>= f) = f a := rfl

@[simp] theorem error_bind (e : ε) (f : α → Except ε β) : (Except.error e >>= f) = .error e := rfl

@[simp] theorem pure_eq_ok (a : α) : (pure a : Except ε α) = .ok a := rfl

@[simp] theorem throw_eq_error (e : ε) : (throw e : Except ε α) = .error e := rfl

theorem bind_eq_ok {x : PyResult α} {f : α → PyResult β} {b : β} :
    (x >>= f) = .ok b ↔ ∃ a, x = .ok a ∧ f a = .ok b := by
  cases x <;> simp

/-- When the second part succeeds on the same condition whatever the first one gives. -/
theorem exists_bind_eq_ok {x : PyResult α} {f : α → PyResult β}
    (h : ∀ a, x = .ok a → ((∃ b, f a = .ok b) ↔ p)) :
    (∃ b, (x >>= f) = .ok b) ↔ (∃ a, x = .ok a) ∧ p := by
  cases x with
  | error e => simp
  | ok a => simpa using h a rfl

theorem exists_bind_pure {x : PyResult α} {f : α → β} :
    (∃ b, (x >>= fun a => pure (f a)) = .ok b) ↔ ∃ a, x = .ok a := by
  cases x <;> simp

/-- A parser that gives its result and the rest of the buffer. -/
theorem exists_bind_pure_prod {α β γ : Type} {x : PyResult α} {f : α → β} {r rest : γ} :
    (∃ b, (x >>= fun a => pure (f a, r)) = .ok (b, rest)) ↔ (∃ a, x = .ok a) ∧ rest = r := by
  cases x <;> simp [eq_comm]

theorem exists_ite_error {α : Type} [Decidable p] {e : PyErr} {x : PyResult α} :
    (∃ a, (if p then .error e else x) = .ok a) ↔ ¬p ∧ ∃ a, x = .ok a := by
  split <;> simp_all

theorem exists_pyAssert [Decidable p] : (∃ u, pyAssert p = .ok u) ↔ p :=
  ⟨fun h => of_pyAssert h.choose_spec, fun h => ⟨(), pyAssert_pos h⟩⟩

theorem mapM_congr {f g : α → PyResult β} {xs : List α} (h : ∀ x ∈ xs, f x = g x) :
    xs.mapM f = xs.mapM g := by
  induction xs with
  | nil => rfl
  | cons x xs ih =>
    rw [mapM_cons, mapM_cons, h x mem_cons_self, ih fun x' hx' => h x' (mem_cons_of_mem x hx')]

/-- A list comprehension none of whose elements raises. -/
theorem mapM_eq_map {α β : Type} {f : α → PyResult β} {g : α → β} {xs : List α}
    (h : ∀ x ∈ xs, f x = .ok (g x)) : xs.mapM f = .ok (xs.map g) := by
  induction xs with
  | nil => rfl
  | cons x xs ih =>
    simp [mapM_cons, h x (by simp), ih fun x' hx' => h x' (mem_cons_of_mem x hx')]

theorem mapM_eq_ok_map_iff {α β : Type} {f : α → PyResult β} {g : α → β} {xs : List α} :
    xs.mapM f = .ok (xs.map g) ↔ ∀ x ∈ xs, f x = .ok (g x) := by
  refine ⟨?_, mapM_eq_map⟩
  induction xs with
  | nil => simp
  | cons x xs ih =>
    rw [mapM_cons]
    intro h
    obtain ⟨y, hy, h⟩ := bind_eq_ok.1 h
    obtain ⟨ys, hys, h⟩ := bind_eq_ok.1 h
    cases h
    simpa using ⟨hy, ih hys⟩

/-- A list comprehension over elements whose values are known where there is one. -/
theorem mapM_eq_ok_iff {f : α → PyResult β} {P : α → Prop} {g : α → β} {xs : List α}
    (h : ∀ x ∈ xs, ∀ y, f x = .ok y ↔ P x ∧ y = g x) {ys : List β} :
    xs.mapM f = .ok ys ↔ (∀ x ∈ xs, P x) ∧ ys = xs.map g := by
  induction xs generalizing ys with
  | nil => simp [eq_comm]
  | cons x xs ih =>
    rw [forall_mem_cons] at h
    rw [mapM_cons, bind_eq_ok]
    constructor
    · rintro ⟨y, hy, hrest⟩
      obtain ⟨tail, htail, hys⟩ := bind_eq_ok.1 hrest
      obtain ⟨hx, rfl⟩ := (h.1 y).1 hy
      obtain ⟨hxs, rfl⟩ := (ih h.2).1 htail
      cases hys
      exact ⟨forall_mem_cons.2 ⟨hx, hxs⟩, rfl⟩
    · rintro ⟨hP, rfl⟩
      rw [forall_mem_cons] at hP
      refine ⟨g x, (h.1 _).2 ⟨hP.1, rfl⟩, ?_⟩
      rw [(ih h.2).2 ⟨hP.2, rfl⟩]
      rfl

theorem exists_mapM {f : α → PyResult β} {xs : List α} (h : ∀ x ∈ xs, ∃ y, f x = .ok y) :
    ∃ ys, xs.mapM f = .ok ys := by
  induction xs with
  | nil => exact ⟨[], rfl⟩
  | cons x xs ih =>
    obtain ⟨y, hy⟩ := h x mem_cons_self
    obtain ⟨ys, hys⟩ := ih fun x' hx' => h x' (mem_cons_of_mem x hx')
    exact ⟨y :: ys, by rw [mapM_cons, hy, hys]; rfl⟩

/-- An element of a list whose comprehension succeeds. -/
theorem exists_of_mapM {f : α → PyResult β} {xs : List α} {ys : List β} (h : xs.mapM f = .ok ys)
    {x : α} (hx : x ∈ xs) : ∃ y ∈ ys, f x = .ok y := by
  induction xs generalizing ys with
  | nil => cases hx
  | cons x' xs ih =>
    rw [mapM_cons] at h
    obtain ⟨y, hy, h⟩ := bind_eq_ok.1 h
    obtain ⟨tail, htail, h⟩ := bind_eq_ok.1 h
    cases h
    rcases mem_cons.1 hx with rfl | hx
    · exact ⟨y, mem_cons_self, hy⟩
    · obtain ⟨z, hz, hfz⟩ := ih htail hx
      exact ⟨z, mem_cons_of_mem _ hz, hfz⟩

/-- A list comprehension that gives elements with the right images. -/
theorem exists_mapM_iff {α β γ : Type} {f : α → PyResult β} {g : β → γ} {g' : α → γ} {xs : List α} :
    (∃ ys, xs.mapM f = .ok ys ∧ ys.map g = xs.map g') ↔
      ∀ x ∈ xs, ∃ y, f x = .ok y ∧ g y = g' x := by
  induction xs with
  | nil => exact iff_of_true ⟨[], rfl, rfl⟩ (by simp)
  | cons x xs ih =>
    rw [forall_mem_cons, ← ih, mapM_cons]
    constructor
    · rintro ⟨ys, hys, hmap⟩
      obtain ⟨y, hy, hys⟩ := bind_eq_ok.1 hys
      obtain ⟨tail, htail, hys⟩ := bind_eq_ok.1 hys
      cases hys
      obtain ⟨hhead, hmap⟩ := cons.inj hmap
      exact ⟨⟨y, hy, hhead⟩, tail, htail, hmap⟩
    · rintro ⟨⟨y, hy, hhead⟩, tail, htail, hmap⟩
      exact ⟨y :: tail, by rw [hy, htail]; rfl, congrArg₂ List.cons hhead hmap⟩

/-- The value of a list comprehension, element by element. -/
theorem mapM_of_forall₂ {f : α → PyResult β} {xs : List α} {ys : List β}
    (h : List.Forall₂ (fun x y => f x = .ok y) xs ys) : xs.mapM f = .ok ys := by
  induction h with
  | nil => rfl
  | cons hy _ ih => simp [mapM_cons, hy, ih]

end BebaCtrl
