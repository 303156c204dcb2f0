import BebaCtrl.Lib.State

/-!
# Green threads

`Coop σ` is the code of a thread that shares the state `σ` with others. The others can run at its
switch points only: between two of them nothing comes in. Code that no other thread interrupts is
the same computation in `PyM σ`, which is `atomic`.
-/

namespace BebaCtrl

inductive Coop (σ α : Type) where
  | pure (a : α)
  | raise (e : PyErr)
  /-- Changes the state; the rest depends on the state before. -/
  | act (f : σ → σ) (next : σ → Coop σ α)
  | switch (next : Coop σ α)

namespace Coop

variable {σ α β : Type}

protected def bind : Coop σ α → (α → Coop σ β) → Coop σ β
  | pure a, k => k a
  | raise e, _ => raise e
  | act f next, k => act f fun s => (next s).bind k
  | switch next, k => switch (next.bind k)

instance : Monad (Coop σ) where
  pure := pure
  bind := Coop.bind

instance : MonadStateOf σ (Coop σ) where
  get := act id pure
  set s := act (fun _ => s) fun _ => pure ()
  modifyGet f := act (fun s => (f s).2) fun s => pure (f s).1

def ofResult : PyResult α → Coop σ α
  | .ok a => pure a
  | .error e => raise e

instance : MonadLift PyResult (Coop σ) where
  monadLift := ofResult

/-- Waits, so that other threads run. -/
def yield : Coop σ Unit := switch (pure ())

/-- Runs the thread to its next switch point, or to its end. -/
def advance : Coop σ α → σ → Option (Coop σ α) × σ
  | pure _, s => (none, s)
  | raise _, s => (none, s)
  | act f next, s => (next s).advance (f s)
  | switch next, s => (some next, s)

/-- Runs the thread to its end, if no other thread does anything. -/
def finish : Coop σ α → σ → σ
  | pure _, s => s
  | raise _, s => s
  | act f next, s => (next s).finish (f s)
  | switch next, s => next.finish s

/-! ### Without interruption -/

/-- The thread as code that nothing interrupts. -/
def atomic : Coop σ α → PyM σ α
  | pure a, s => (.ok a, s)
  | raise e, s => (.error e, s)
  | act f next, s => (next s).atomic (f s)
  | switch next, s => next.atomic s

variable {k : α → Coop σ β}

section atomic

variable {p : Coop σ α} {s s' : σ}

theorem atomic_bind (s : σ) : (p >>= k).atomic s = (p.atomic >>= fun a => (k a).atomic) s := by
  induction p generalizing s with
  | pure a => rfl
  | raise e => rfl
  | act f next ih => exact ih s (f s)
  | switch next ih => exact ih s

theorem atomic_bind_of_ok {a : α} (h : p.atomic s = (.ok a, s')) :
    (p >>= k).atomic s = (k a).atomic s' := by
  rw [atomic_bind]
  exact PyM.bind_of_ok h _

theorem atomic_bind_of_error {e : PyErr} (h : p.atomic s = (.error e, s')) :
    (p >>= k).atomic s = (.error e, s') := by
  rw [atomic_bind]
  exact PyM.bind_of_error h _

theorem atomic_get_bind {k : σ → Coop σ β} : (get >>= k).atomic s = (k s).atomic s := rfl

theorem atomic_yield_bind {k : Unit → Coop σ β} : (yield >>= k).atomic s = (k ()).atomic s := rfl

theorem atomic_lift {r : PyResult α} : (liftM r : Coop σ α).atomic s = (r, s) := by
  cases r <;> rfl

theorem finish_eq_atomic : p.finish s = (p.atomic s).2 := by
  induction p generalizing s with
  | pure a => rfl
  | raise e => rfl
  | act f next ih => exact ih s
  | switch next ih => exact ih

/-- What is left of the thread does the rest. -/
theorem finish_of_advance {next : Coop σ α} (h : p.advance s = (some next, s')) :
    next.finish s' = p.finish s := by
  induction p generalizing s with
  | pure a => cases h
  | raise e => cases h
  | act f next' ih => exact ih s h
  | switch next' ih =>
    cases h
    rfl

theorem finish_of_advance_none (h : p.advance s = (none, s')) : p.finish s = s' := by
  induction p generalizing s with
  | pure a => cases h; rfl
  | raise e => cases h; rfl
  | act f next ih => exact ih s h
  | switch next ih => cases h

end atomic

end Coop

end BebaCtrl
