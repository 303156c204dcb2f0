import Mathlib.Data.List.Chain
import Mathlib.Data.Option.Basic

/-!
# Enter and leave events

An observer is told when a key enters (`true`) and when it leaves (`false`). `marks kind k log` are
the events of a log about `k`; they alternate if no two neighbours are equal, from a key that is
absent.
-/

namespace BebaCtrl.Presence

open List

variable {ε κ : Type} [DecidableEq κ] (kind : ε → Option (κ × Bool)) {k : κ} {log : List ε} {e : ε}

def mark (k : κ) (e : ε) : Option Bool :=
  (kind e).bind fun p => if p.1 = k then some p.2 else none

def marks (k : κ) (log : List ε) : List Bool := log.filterMap (mark kind k)

def Alternates (marks : List Bool) : Prop := (false :: marks).IsChain (· ≠ ·)

/-- The last that was said of the key. -/
def present (k : κ) (log : List ε) : Bool := (marks kind k log).getLastD false

theorem alternates_concat {marks : List Bool} {b : Bool} :
    Alternates (marks ++ [b]) ↔ Alternates marks ∧ marks.getLastD false ≠ b := by
  rw [Alternates, Alternates, ← cons_append, isChain_append]
  simp only [isChain_singleton, true_and, head?_cons, Option.mem_def,
    Option.some.injEq, forall_eq', getLast?_cons, ← getLastD_eq_getLast?]

theorem marks_concat : marks kind k (log ++ [e]) = marks kind k log ++ (mark kind k e).toList := by
  rw [marks, filterMap_append, filterMap_cons]
  cases mark kind k e <;> rfl

variable {kind}

theorem present_concat :
    present kind k (log ++ [e]) = (mark kind k e).getD (present kind k log) := by
  rw [present, marks_concat]
  cases mark kind k e with
  | none => simp [present]
  | some b => simp

/-- An event may be added if it changes what was said last. -/
theorem alternates_marks_concat : Alternates (marks kind k (log ++ [e])) ↔
    Alternates (marks kind k log) ∧ mark kind k e ≠ some (present kind k log) := by
  rw [marks_concat]
  cases mark kind k e with
  | none => simp
  | some b => simpa [present, eq_comm] using alternates_concat

end BebaCtrl.Presence
