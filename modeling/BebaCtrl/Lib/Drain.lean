import Mathlib.Data.List.Basic

/-!
# Draining a buffer

A reader collects what arrives in a buffer and takes complete messages from its front. A `Framer`
tells from the buffer whether to wait, to give up, or how long the first message is, and what
arrives later does not change what it told. `Drains` is the effect of taking messages until none is
left or one of them makes trouble.

The main rules are `Drains.append` and `Drains.append_of_error`: draining what has arrived so far
and going on later comes to the same as draining everything at once.
-/

namespace BebaCtrl

open List

inductive Frame (ε : Type) where
  | wait
  | bad (e : ε)
  | message (length : Nat)
  deriving DecidableEq, Repr

structure Framer (α ε : Type) where
  next : List α → Frame ε
  length_pos : ∀ {buf n}, next buf = .message n → 0 < n ∧ n ≤ buf.length
  message_append : ∀ {buf n}, next buf = .message n → ∀ more, next (buf ++ more) = .message n
  bad_append : ∀ {buf e}, next buf = .bad e → ∀ more, next (buf ++ more) = .bad e

namespace Framer

variable {α ε : Type} (F : Framer α ε)

def framesUpTo : Nat → List α → List (List α)
  | 0, _ => []
  | k + 1, buf =>
    match F.next buf with
    | .message n => buf.take n :: framesUpTo k (buf.drop n)
    | .wait | .bad _ => []

/-- The complete messages of a stream up to the first bad header. -/
def frames (buf : List α) : List (List α) := F.framesUpTo buf.length buf

variable {F} {buf : List α}

theorem framesUpTo_nil (k : Nat) : F.framesUpTo k [] = [] := by
  cases k with
  | zero => rfl
  | succ k =>
    cases hnext : F.next [] with
    | wait | bad => simp [framesUpTo, hnext]
    | message n =>
      have := F.length_pos hnext
      simp only [length_nil] at this
      omega

theorem framesUpTo_eq {k k' : Nat} (hk : buf.length ≤ k) (hk' : buf.length ≤ k') :
    F.framesUpTo k buf = F.framesUpTo k' buf := by
  induction k generalizing buf k' with
  | zero =>
    obtain rfl : buf = [] := eq_nil_of_length_eq_zero (by omega)
    rw [framesUpTo_nil, framesUpTo_nil]
  | succ k ih =>
    cases k' with
    | zero =>
      obtain rfl : buf = [] := eq_nil_of_length_eq_zero (by omega)
      rw [framesUpTo_nil, framesUpTo_nil]
    | succ k' =>
      cases hnext : F.next buf with
      | wait | bad => simp [framesUpTo, hnext]
      | message n =>
        have hpos := F.length_pos hnext
        have hdrop : (buf.drop n).length < buf.length := by
          rw [length_drop]
          omega
        have htail := @ih (buf.drop n) k' (by omega) (by omega)
        simp [framesUpTo, hnext, htail]

theorem frames_of_message {n : Nat} (h : F.next buf = .message n) :
    F.frames buf = buf.take n :: F.frames (buf.drop n) := by
  have hpos := F.length_pos h
  have hlen : (buf.drop n).length ≤ buf.length - 1 := by
    rw [length_drop]
    omega
  obtain ⟨k, hk⟩ := Nat.exists_eq_add_of_lt (Nat.lt_of_lt_of_le hpos.1 hpos.2)
  rw [frames, frames, framesUpTo_eq (Nat.le_refl _) hlen, hk]
  simp [framesUpTo, h]

theorem frames_of_wait (h : F.next buf = .wait) : F.frames buf = [] := by
  cases hlen : buf.length <;> simp [frames, hlen, framesUpTo, h]

theorem frames_of_bad {e : ε} (h : F.next buf = .bad e) : F.frames buf = [] := by
  cases hlen : buf.length <;> simp [frames, hlen, framesUpTo, h]

end Framer

/-- What becomes of a message: it is done, or it is rejected and stays in the buffer, or it is taken
out of the buffer and then fails. -/
inductive Consumed (ε σ : Type) where
  | done (s : σ)
  | rejected (e : ε)
  | failed (e : ε) (s : σ)
  deriving DecidableEq, Repr

variable {α ε σ : Type}

/-- From a buffer and a state to the rest of the buffer, the new state and the error, if any. -/
inductive Drains (F : Framer α ε) (consume : List α → σ → Consumed ε σ) :
    List α → σ → List α → σ → Option ε → Prop where
  | wait {buf s} : F.next buf = .wait → Drains F consume buf s buf s none
  | bad {buf s e} : F.next buf = .bad e → Drains F consume buf s buf s (some e)
  | rejected {buf s n e} : F.next buf = .message n → consume (buf.take n) s = .rejected e →
      Drains F consume buf s buf s (some e)
  | failed {buf s n e s'} : F.next buf = .message n → consume (buf.take n) s = .failed e s' →
      Drains F consume buf s (buf.drop n) s' (some e)
  | done {buf s n s' rest s'' r} : F.next buf = .message n →
      consume (buf.take n) s = .done s' → Drains F consume (buf.drop n) s' rest s'' r →
      Drains F consume buf s rest s'' r

namespace Drains

variable {F : Framer α ε} {consume : List α → σ → Consumed ε σ} {buf rest : List α} {s s' s'' : σ}

theorem take_append {n : Nat} (h : F.next buf = .message n) (more : List α) :
    (buf ++ more).take n = buf.take n ∧ (buf ++ more).drop n = buf.drop n ++ more := by
  have hle := (F.length_pos h).2
  exact ⟨take_append_of_le_length hle, drop_append_of_le_length hle⟩

/-- Without an error the reader waits in the end. -/
theorem next_eq_wait (h : Drains F consume buf s rest s' none) : F.next rest = .wait := by
  generalize hr : none = r at h
  induction h with
  | wait hnext => exact hnext
  | bad | rejected | failed => cases hr
  | done _ _ _ ih => exact ih hr

/-- An error does not depend on what comes after it. -/
theorem append_of_error {e : ε} (h : Drains F consume buf s rest s' (some e)) (more : List α) :
    Drains F consume (buf ++ more) s (rest ++ more) s' (some e) := by
  generalize hr : some e = r at h
  induction h with
  | wait => cases hr
  | bad hnext => exact hr ▸ .bad (F.bad_append (Option.some.inj hr ▸ hnext) more)
  | rejected hnext hc =>
    apply Drains.rejected (F.message_append hnext more)
    rw [(take_append hnext more).1]
    exact hc
  | failed hnext hc =>
    rw [← (take_append hnext more).2]
    apply Drains.failed (F.message_append hnext more)
    rw [(take_append hnext more).1]
    exact hc
  | done hnext hc _ ih =>
    apply Drains.done (F.message_append hnext more)
    · rw [(take_append hnext more).1]
      exact hc
    · rw [(take_append hnext more).2]
      exact ih hr

/-- Going on with what was left. -/
theorem append {more rest' : List α} {r : Option ε} (h : Drains F consume buf s rest s' none)
    (hmore : Drains F consume (rest ++ more) s' rest' s'' r) :
    Drains F consume (buf ++ more) s rest' s'' r := by
  generalize hr : none = r₁ at h
  induction h with
  | wait => exact hmore
  | bad | rejected | failed => cases hr
  | done hnext hc _ ih =>
    apply Drains.done (F.message_append hnext more)
    · rw [(take_append hnext more).1]
      exact hc
    · rw [(take_append hnext more).2]
      exact ih hmore hr

theorem unique {rest' : List α} {r r' : Option ε} (h : Drains F consume buf s rest s' r)
    (h' : Drains F consume buf s rest' s'' r') : rest = rest' ∧ s' = s'' ∧ r = r' := by
  induction h with
  | wait | bad | rejected | failed => cases h' <;> grind
  | done hnext hc _ ih =>
    cases h' with
    | done hnext' hc' hrest =>
      rw [hnext] at hnext'
      cases hnext'
      rw [hc] at hc'
      cases hc'
      exact ih hrest
    | wait | bad | rejected | failed => grind

end Drains

end BebaCtrl
