import BebaCtrl.Lib.Python

/-!
# Stateful code that may raise

`PyM σ` is code that reads and writes a state `σ`, such as the attributes of an object. An exception
does not undo what was written before it.

`Triple` is partial correctness with a postcondition for each way a call can end. An invariant kept
on both ways is `Keeps`.
-/

namespace BebaCtrl

def PyM (σ α : Type) : Type := σ → PyResult α × σ

namespace PyM

variable {σ α β : Type}

instance : Monad (PyM σ) where
  pure a := fun s => (.ok a, s)
  bind m f := fun s =>
    match m s with
    | (.ok a, s') => f a s'
    | (.error e, s') => (.error e, s')

instance : MonadLift PyResult (PyM σ) where
  monadLift r := fun s => (r, s)

instance : MonadExceptOf PyErr (PyM σ) where
  throw e := fun s => (.error e, s)
  tryCatch m handle := fun s =>
    match m s with
    | (.ok a, s') => (.ok a, s')
    | (.error e, s') => handle e s'

instance : MonadStateOf σ (PyM σ) where
  get := fun s => (.ok s, s)
  set s := fun _ => (.ok (), s)
  modifyGet f := fun s => (.ok (f s).1, (f s).2)

/-- Started in a state with `P`, the code ends with a value in a state with `Q`, or raises in a
state with `E`. -/
def Triple (P : σ → Prop) (m : PyM σ α) (Q : α → σ → Prop) (E : σ → Prop) : Prop :=
  ∀ s, P s →
    match m s with
    | (.ok a, s') => Q a s'
    | (.error _, s') => E s'

variable {P P' E E' : σ → Prop} {Q Q' : α → σ → Prop} {R : β → σ → Prop} {m : PyM σ α}

theorem Triple.consequence (h : Triple P' m Q' E') (hP : ∀ s, P s → P' s)
    (hQ : ∀ a s, Q' a s → Q a s) (hE : ∀ s, E' s → E s) : Triple P m Q E := by
  intro s hs
  have hm := h s (hP s hs)
  split <;> rename_i hms <;> rw [hms] at hm
  · exact hQ _ _ hm
  · exact hE _ hm

theorem Triple.bind {f : α → PyM σ β} (hm : Triple P m Q E) (hf : ∀ a, Triple (Q a) (f a) R E) :
    Triple P (m >>= f) R E := by
  intro s hs
  have h := hm s hs
  change match (match m s with
    | (.ok a, s') => f a s'
    | (.error e, s') => (.error e, s')) with
    | (.ok b, s') => R b s'
    | (.error _, s') => E s'
  cases hms : m s with
  | mk r s' =>
    rw [hms] at h
    cases r with
    | ok a => exact hf a s' h
    | error e => exact h

/-- A fact about no state can be taken out of the precondition. -/
theorem Triple.of_fact {c : Prop} (h : c → Triple P m Q E) :
    Triple (fun s => P s ∧ c) m Q E := fun s hs => h hs.2 s hs.1

variable {a : α}

theorem Triple.pure (h : ∀ s, P s → Q a s) : Triple P (pure a) Q E := h

variable {r : PyResult α}

/-- Code that leaves the state alone. -/
theorem Triple.lift (hQ : ∀ a s, r = .ok a → P s → Q a s) (hE : ∀ s, P s → E s) :
    Triple P (liftM r : PyM σ α) Q E := by
  intro s hs
  cases r with
  | ok a => exact hQ a s rfl hs
  | error e => exact hE s hs

theorem Triple.modify {f : σ → σ} {Q : Unit → σ → Prop} (h : ∀ s, P s → Q () (f s)) :
    Triple P (modify f : PyM σ Unit) Q E := h

theorem Triple.get {Q : σ → σ → Prop} (h : ∀ s, P s → Q s s) : Triple P (get : PyM σ σ) Q E := h

/-- The invariant `P` holds after the code if it held before, whether or not it raises. -/
def Keeps (P : σ → Prop) (m : PyM σ α) : Prop := Triple P m (fun _ => P) P

theorem Triple.final {m : PyM σ α} (h : Triple P m (fun _ => E) E) {s : σ} (hs : P s) :
    E (m s).2 := by
  have hm := h s hs
  cases hms : m s with
  | mk r s' =>
    rw [hms] at hm
    cases r <;> exact hm

theorem Keeps.final {m : PyM σ α} (h : Keeps P m) {s : σ} (hs : P s) : P (m s).2 :=
  Triple.final h hs

theorem Keeps.bind {f : α → PyM σ β} (hm : Keeps P m) (hf : ∀ a, Keeps P (f a)) :
    Keeps P (m >>= f) := Triple.bind hm hf

theorem Keeps.pure : Keeps P (pure a : PyM σ α) := fun _ h => h

theorem Keeps.lift : Keeps P (liftM r : PyM σ α) :=
  Triple.lift (fun _ _ _ h => h) fun _ h => h

theorem Keeps.get : Keeps P (get : PyM σ σ) := fun _ h => h

theorem Keeps.modify {f : σ → σ} (h : ∀ s, P s → P (f s)) : Keeps P (modify f : PyM σ Unit) := h

variable {s s' : σ}

/-- Code that ends with a value ran its first part to the end. -/
theorem bind_eq_ok {f : α → PyM σ β} {b : β} :
    (m >>= f) s = (.ok b, s') ↔ ∃ a s₁, m s = (.ok a, s₁) ∧ f a s₁ = (.ok b, s') := by
  change (match m s with
    | (.ok a, s₁) => f a s₁
    | (.error e, s₁) => (.error e, s₁)) = (.ok b, s') ↔ _
  cases m s with
  | mk r s₁ => cases r <;> simp

theorem lift_eq_ok : (liftM r : PyM σ α) s = (.ok a, s') ↔ r = .ok a ∧ s = s' := by
  change (r, s) = _ ↔ _
  rw [Prod.mk.injEq]

theorem bind_of_ok (h : m s = (.ok a, s')) (f : α → PyM σ β) : (m >>= f) s = f a s' := by
  change (match m s with
    | (.ok a, s₁) => f a s₁
    | (.error e, s₁) => (.error e, s₁)) = _
  rw [h]

theorem bind_apply (m : PyM σ α) (f : α → PyM σ β) (s : σ) :
    (m >>= f) s = match m s with
      | (.ok a, s₁) => f a s₁
      | (.error e, s₁) => (.error e, s₁) := rfl

theorem pure_apply (a : α) (s : σ) : (pure a : PyM σ α) s = (.ok a, s) := rfl

theorem throw_apply (e : PyErr) (s : σ) : (throw e : PyM σ α) s = (.error e, s) := rfl

theorem get_apply (s : σ) : (get : PyM σ σ) s = (.ok s, s) := rfl

theorem modify_apply (f : σ → σ) (s : σ) : (modify f : PyM σ PUnit) s = (.ok ⟨⟩, f s) := rfl

theorem lift_apply (r : PyResult α) (s : σ) : (liftM r : PyM σ α) s = (r, s) := rfl

theorem lift_bind_of_ok (h : r = .ok a) (f : α → PyM σ β) (s : σ) :
    ((liftM r : PyM σ α) >>= f) s = f a s := bind_of_ok (lift_eq_ok.2 ⟨h, rfl⟩) f

theorem get_bind (f : σ → PyM σ β) (s : σ) : ((get : PyM σ σ) >>= f) s = f s s := rfl

theorem modify_bind (g : σ → σ) (f : PUnit → PyM σ β) (s : σ) :
    ((modify g : PyM σ PUnit) >>= f) s = f ⟨⟩ (g s) := rfl

theorem bind_of_error {e : PyErr} (h : m s = (.error e, s')) (f : α → PyM σ β) :
    (m >>= f) s = (.error e, s') := by
  change (match m s with
    | (.ok a, s₁) => f a s₁
    | (.error e, s₁) => (.error e, s₁)) = _
  rw [h]

variable {f : β → PyM σ PUnit} {x : β}

theorem forM_cons_of_ok (h : f x s = (.ok ⟨⟩, s')) (xs : List β) :
    (x :: xs).forM f s = xs.forM f s' := bind_of_ok h _

theorem forM_cons_of_error {e : PyErr} (h : f x s = (.error e, s')) (xs : List β) :
    (x :: xs).forM f s = (.error e, s') :=
  bind_of_error h _

variable {xs : List β}

theorem forM_concat_of_ok {s s₁ s₂ : σ} (h : xs.forM f s = (.ok ⟨⟩, s₁))
    (hx : f x s₁ = (.ok ⟨⟩, s₂)) :
    (xs ++ [x]).forM f s = (.ok ⟨⟩, s₂) := by
  induction xs generalizing s with
  | nil =>
    cases h
    exact forM_cons_of_ok hx []
  | cons y ys ih =>
    obtain ⟨_, s', hy, hys⟩ := bind_eq_ok.1 h
    exact (forM_cons_of_ok hy _).trans (ih hys)

/-- A loop whose body never raises. -/
theorem forM_of_ok {g : σ → β → σ} (h : ∀ x s, f x s = (.ok ⟨⟩, g s x)) (xs : List β) (s : σ) :
    xs.forM f s = (.ok ⟨⟩, xs.foldl g s) := by
  induction xs generalizing s with
  | nil => rfl
  | cons x xs ih => exact (forM_cons_of_ok (h x s) xs).trans (ih _)

theorem tryCatch_of_ok (h : m s = (.ok a, s')) (handle : PyErr → PyM σ α) :
    (tryCatch m handle : PyM σ α) s = (.ok a, s') := by
  change (match m s with
    | (.ok a, s₁) => (.ok a, s₁)
    | (.error e, s₁) => handle e s₁ : PyResult α × σ) = _
  rw [h]

/-! ## When code ends with a value -/

/-- The code ends with a value exactly in the states with `P`. -/
def EndsIff (m : PyM σ α) (P : σ → Prop) : Prop := ∀ s, (∃ a, (m s).1 = .ok a) ↔ P s

theorem EndsIff.congr (h : EndsIff m P) (hP : ∀ s, P s ↔ P' s) : EndsIff m P' :=
  fun s => (h s).trans (hP s)

theorem EndsIff.pure : EndsIff (pure a : PyM σ α) fun _ => True :=
  fun _ => iff_of_true ⟨a, rfl⟩ trivial

theorem EndsIff.modify {f : σ → σ} : EndsIff (modify f : PyM σ Unit) fun _ => True :=
  fun _ => iff_of_true ⟨(), rfl⟩ trivial

theorem EndsIff.lift {p : Prop} (h : (∃ a, r = .ok a) ↔ p) :
    EndsIff (liftM r : PyM σ α) fun _ => p := fun _ => h

/-- Both parts must end; the condition of the second one is said of the state before the first. -/
theorem EndsIff.bind {f : α → PyM σ β} (hm : EndsIff m P)
    (hf : ∀ s a s', m s = (.ok a, s') → ((∃ b, (f a s').1 = .ok b) ↔ P' s)) :
    EndsIff (m >>= f) fun s => P s ∧ P' s := by
  intro s
  have hP : (∃ a, (m s).1 = .ok a) ↔ P s := hm s
  change _ ↔ P s ∧ P' s
  rw [← hP]
  cases hms : m s with
  | mk r s' =>
    cases r with
    | ok a => simpa [bind_of_ok hms] using hf s a s' hms
    | error e => simp [bind_of_error hms]

/-- Neither part looks at the state to decide. -/
theorem EndsIff.seq {f : α → PyM σ β} {p q : Prop} (hm : EndsIff m fun _ => p)
    (hf : ∀ a, EndsIff (f a) fun _ => q) : EndsIff (m >>= f) fun _ => p ∧ q :=
  .bind hm fun _ a s' _ => hf a s'

theorem EndsIff.forM {p : β → Prop} (h : ∀ x, EndsIff (f x) fun _ => p x) :
    EndsIff (xs.forM f) fun _ => ∀ x ∈ xs, p x := by
  induction xs with
  | nil => exact EndsIff.pure.congr fun _ => by simp
  | cons x xs ih => exact (EndsIff.seq (h x) fun _ => ih).congr fun _ => by simp

/-! ## Code of a part of the state -/

variable {τ : Type}

/-- Code that sees the first half of the state. -/
def onFst (m : PyM σ α) : PyM (σ × τ) α := fun s => ((m s.1).1, (m s.1).2, s.2)

theorem Triple.onFst (h : Triple P m Q E) :
    Triple (fun s : σ × τ => P s.1) m.onFst (fun a s => Q a s.1) fun s => E s.1 := by
  rintro ⟨s, t⟩ hs
  have hm := h s hs
  rw [PyM.onFst]
  cases hms : m s with
  | mk r s' =>
    rw [hms] at hm
    cases r <;> exact hm

theorem Keeps.onFst (h : Keeps P m) : Keeps (fun s : σ × τ => P s.1) m.onFst := Triple.onFst h

theorem keeps_onFst_get {P : σ × τ → Prop} : Keeps P (onFst get) := fun _ h => h

theorem onFst_apply (m : PyM σ α) (s : σ) (t : τ) : m.onFst (s, t) = ((m s).1, (m s).2, t) := rfl

/-- Code that sees the second half of the state. -/
def onSnd (m : PyM τ α) : PyM (σ × τ) α := fun s => ((m s.2).1, s.1, (m s.2).2)

theorem Keeps.onSnd (m : PyM τ α) : Keeps (fun s : σ × τ => P s.1) m.onSnd := by
  rintro ⟨s, t⟩ hs
  rw [PyM.onSnd]
  cases (m t).1 <;> exact hs

theorem onSnd_apply (m : PyM τ α) (s : σ) (t : τ) : m.onSnd (s, t) = ((m t).1, s, (m t).2) := rfl

theorem Keeps.forM (h : ∀ x, Keeps P (f x)) : Keeps P (xs.forM f) := by
  induction xs with
  | nil => exact .pure
  | cons x xs ih => exact .bind (h x) fun _ => ih

end PyM

end BebaCtrl
