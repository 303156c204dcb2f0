import Mathlib.Tactic.Common

/-!
# Pipelines of flow tables

A flow entry has a priority, a condition on packets, actions that run in order and possibly a table
to go on to afterwards. An action changes the packet or looks it up in another table and then
continues. `exec` runs a packet through the tables and records every lookup; it is given a bound on
the nesting of lookups, since tables may refer to each other in circles.
-/

namespace BebaCtrl.Pipeline

open List

variable {P : Type}

inductive Act (P : Type) where
  | effect (f : P → P)
  | resubmit (table : Nat)

structure Entry (P : Type) where
  priority : Nat
  covers : P → Bool
  acts : List (Act P)
  goto : Option Nat

abbrev Tables (P : Type) := Nat → List (Entry P)

/-- A lookup: the table, the packet as it was then, and whether the packet entered the table from
outside or by a goto (and not by a resubmit). -/
structure Lookup (P : Type) where
  table : Nat
  packet : P
  entered : Bool

/-- The entry of highest priority among those that cover the packet, the first of them on a tie. -/
def best (p : P) : List (Entry P) → Option (Entry P)
  | [] => none
  | e :: es =>
    if e.covers p then
      match best p es with
      | none => some e
      | some b => if b.priority ≤ e.priority then some e else some b
    else best p es

/-- Run actions in order; `lookup` runs a packet through a table. -/
def runActs (lookup : Nat → P → Option (P × List (Lookup P))) :
    List (Act P) → P → Option (P × List (Lookup P))
  | [], p => some (p, [])
  | .effect f :: acts, p => runActs lookup acts (f p)
  | .resubmit table :: acts, p => do
    let (p, trace) ← lookup table p
    let (p, trace') ← runActs lookup acts p
    return (p, trace ++ trace')

/-- The packet after its way through the tables from `table` on, and the lookups on this way. -/
def exec (tables : Tables P) : Nat → Bool → Nat → P → Option (P × List (Lookup P))
  | 0, _, _, _ => none
  | depth + 1, entered, table, p =>
    match best p (tables table) with
    | none => some (p, [⟨table, p, entered⟩])
    | some e => do
      let (q, trace) ← runActs (exec tables depth false) e.acts p
      match e.goto with
      | none => return (q, ⟨table, p, entered⟩ :: trace)
      | some next => do
        let (r, trace') ← exec tables depth true next q
        return (r, ⟨table, p, entered⟩ :: (trace ++ trace'))

/-! ## Lookups -/

variable {es : List (Entry P)}

theorem best_eq_none {p : P} (h : ∀ e ∈ es, e.covers p = false) : best p es = none := by
  induction es with
  | nil => rfl
  | cons e es ih =>
    rw [best, if_neg (by simp [h e mem_cons_self])]
    exact ih fun e' he' => h e' (mem_cons_of_mem e he')

variable {e : Entry P}

theorem best_eq_some {p : P} (h : best p es = some e) : e ∈ es ∧ e.covers p = true := by
  induction es with
  | nil => cases h
  | cons a es ih =>
    have hlater (hb : best p es = some e) : e ∈ a :: es ∧ e.covers p = true :=
      ⟨mem_cons_of_mem a (ih hb).1, (ih hb).2⟩
    rw [best] at h
    split at h
    · rename_i ha
      split at h
      · cases h
        exact ⟨mem_cons_self, ha⟩
      · rename_i b hb
        split at h
        · cases h
          exact ⟨mem_cons_self, ha⟩
        · exact hlater (hb.trans h)
    · exact hlater h

/-- The first entry that covers the packet wins when none that covers it has a higher priority. -/
theorem best_eq_find {p : P} (h : es.find? (·.covers p) = some e)
    (hmax : ∀ e' ∈ es, e'.covers p = true → e'.priority ≤ e.priority) : best p es = some e := by
  induction es with
  | nil => cases h
  | cons a es ih =>
    rw [find?_cons] at h
    split at h
    · rename_i ha
      cases h
      rw [best, if_pos ha]
      cases hb : best p es with
      | none => rfl
      | some b =>
        obtain ⟨hmem, hcov⟩ := best_eq_some hb
        exact if_pos (hmax b (mem_cons_of_mem _ hmem) hcov)
    · rename_i ha
      rw [best, if_neg (by simp [ha])]
      exact ih h fun e' he' => hmax e' (mem_cons_of_mem a he')

/-- An entry that alone covers the packet wins. -/
theorem best_only {p : P} (hmem : e ∈ es) (hcov : e.covers p = true)
    (honly : ∀ e' ∈ es, e'.covers p = true → e' = e) :
    best p es = some e := by
  refine best_eq_find ?_ fun e' he' hc =>
    Nat.le_of_eq (congrArg Entry.priority (honly e' he' hc))
  cases hf : es.find? (·.covers p) with
  | none => exact absurd hcov (find?_eq_none.1 hf e hmem)
  | some e' =>
    have hc : e'.covers p = true := find?_some (p := fun x : Entry P => x.covers p) hf
    rw [honly e' (mem_of_find?_eq_some hf) hc]

/-! ## Actions that only change the packet -/

def Act.IsEffect : Act P → Prop
  | .effect _ => True
  | .resubmit _ => False

def Act.apply (p : P) : Act P → P
  | .effect f => f p
  | .resubmit _ => p

/-- Without resubmits the actions change the packet and look nothing up. -/
theorem runActs_effects (lookup : Nat → P → Option (P × List (Lookup P))) {acts : List (Act P)}
    (h : ∀ a ∈ acts, a.IsEffect) (p : P) :
    runActs lookup acts p = some (acts.foldl Act.apply p, []) := by
  induction acts generalizing p with
  | nil => rfl
  | cons a acts ih =>
    cases a with
    | effect f => exact ih (fun a ha => h a (mem_cons_of_mem _ ha)) (f p)
    | resubmit table => exact absurd (h _ mem_cons_self) id

/-! ## Steps of `exec` -/

variable {tables : Tables P} {depth table : Nat} {entered : Bool} {p : P}

theorem exec_miss (h : best p (tables table) = none) :
    exec tables (depth + 1) entered table p = some (p, [⟨table, p, entered⟩]) := by
  rw [exec, h]

theorem exec_stay (h : best p (tables table) = some e) (hgoto : e.goto = none) {q : P}
    {trace : List (Lookup P)}
    (hacts : runActs (exec tables depth false) e.acts p = some (q, trace)) :
    exec tables (depth + 1) entered table p = some (q, ⟨table, p, entered⟩ :: trace) := by
  simp [exec, h, hacts, hgoto, bind, pure]

theorem exec_goto (h : best p (tables table) = some e) {next : Nat} (hgoto : e.goto = some next)
    {q r : P} {trace trace' : List (Lookup P)}
    (hacts : runActs (exec tables depth false) e.acts p = some (q, trace))
    (hnext : exec tables depth true next q = some (r, trace')) :
    exec tables (depth + 1) entered table p =
      some (r, ⟨table, p, entered⟩ :: (trace ++ trace')) := by
  simp [exec, h, hacts, hgoto, hnext, bind, pure]

end BebaCtrl.Pipeline
