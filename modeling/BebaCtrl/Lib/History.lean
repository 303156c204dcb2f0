import Mathlib.Data.List.Induction

/-!
# Properties of every event of a run

A run is given by the list of its events, and the state before an event is a function of the events
before it. `Throughout P` says that `P` holds of each event and its history. To replace `P` by a
condition `Q` it is enough to do so where an invariant of the histories holds.
-/

namespace BebaCtrl.History

open List

variable {ε : Type} {P Q : List ε → ε → Prop} {events : List ε}

def Throughout (P : List ε → ε → Prop) (events : List ε) : Prop :=
  ∀ before event after, events = before ++ event :: after → P before event

theorem throughout_nil : Throughout P [] := by
  intro before event after h
  simp at h

variable {e : ε}

theorem throughout_cons :
    Throughout P (e :: events) ↔ P [] e ∧ Throughout (fun before => P (e :: before)) events := by
  constructor
  · intro h
    refine ⟨h [] e events rfl, ?_⟩
    rintro before event after rfl
    exact h (e :: before) event after rfl
  · rintro ⟨hhead, h⟩ before event after heq
    cases before with
    | nil =>
      cases heq
      exact hhead
    | cons e' before =>
      cases heq
      exact h before event after rfl

theorem throughout_append {events' : List ε} : Throughout P (events ++ events') ↔
    Throughout P events ∧ Throughout (fun before => P (events ++ before)) events' := by
  induction events generalizing P with
  | nil => simp [throughout_nil]
  | cons e events ih => simp only [cons_append, throughout_cons, ih, and_assoc]

/-- A run in which each event is a list of smaller ones. -/
theorem throughout_flatMap {ι : Type} {f : ι → List ε} {xs : List ι} : Throughout P (xs.flatMap f) ↔
    Throughout (fun before x => Throughout (fun b => P (before.flatMap f ++ b)) (f x)) xs := by
  induction xs generalizing P with
  | nil => exact iff_of_true throughout_nil throughout_nil
  | cons x xs ih =>
    rw [flatMap_cons, throughout_append, throughout_cons, ih]
    simp

theorem throughout_congr (h : ∀ before event, P before event ↔ Q before event) :
    Throughout P events ↔ Throughout Q events := by
  rw [show P = Q from funext₂ fun before event => propext (h before event)]

theorem throughout_concat : Throughout P (events ++ [e]) ↔ Throughout P events ∧ P events e := by
  rw [throughout_append, throughout_cons, append_nil]
  simp [throughout_nil]

/-- A property of one kind of event. -/
theorem throughout_event_iff {R : List ε → Prop} :
    Throughout (fun before event => event = e → R before) events ↔
      ∀ before after, events = before ++ e :: after → R before := by
  constructor
  · intro h before after heq
    exact h before e after heq rfl
  · rintro h before event after heq rfl
    exact h before after heq

/-- A property of the events alone. -/
theorem throughout_mem_iff {R : ε → Prop} :
    Throughout (fun _ event => R event) events ↔ ∀ e ∈ events, R e := by
  constructor
  · intro h e he
    obtain ⟨before, after, heq⟩ := append_of_mem he
    exact h before e after heq
  · rintro h before event after rfl
    exact h event (by simp)

section

variable (Inv : List ε → Prop) (hinit : Inv [])
  (hiff : ∀ before event, Inv before → (P before event ↔ Q before event))
  (hstep : ∀ before event, Inv before → Q before event → Inv (before ++ [event]))
include hinit hstep

include hiff in
/-- What the invariant needs of a step is `Q`, and where it holds, `P` and `Q` are the same. -/
theorem throughout_and_iff (events : List ε) :
    (Throughout P events ↔ Throughout Q events) ∧ (Throughout Q events → Inv events) := by
  induction events using reverseRecOn with
  | nil => exact ⟨iff_of_true throughout_nil throughout_nil, fun _ => hinit⟩
  | append_singleton events e ih =>
    obtain ⟨hPQ, hinv⟩ := ih
    rw [throughout_concat, throughout_concat, hPQ]
    refine ⟨and_congr_right fun hQ => hiff events e (hinv hQ), ?_⟩
    rintro ⟨hQ, hlast⟩
    exact hstep events e (hinv hQ) hlast

include hiff in
theorem throughout_iff (events : List ε) : Throughout P events ↔ Throughout Q events :=
  (throughout_and_iff Inv hinit hiff hstep events).1

theorem inv_of_throughout (h : Throughout Q events) : Inv events :=
  (throughout_and_iff Inv hinit (fun _ _ _ => Iff.rfl) hstep events).2 h

end

/-! ### What happened last -/

/-- An event with `P` has happened, and every later one has `K`. -/
def SinceAt (P K : List ε → ε → Prop) (events : List ε) : Prop :=
  ∃ before e after, events = before ++ e :: after ∧ P before e ∧
    Throughout (fun mid => K (before ++ e :: mid)) after

variable {K : List ε → ε → Prop}

theorem not_sinceAt_nil : ¬SinceAt P K [] := by
  rintro ⟨before, e, after, h, -⟩
  simp at h

theorem sinceAt_concat :
    SinceAt P K (events ++ [e]) ↔ P events e ∨ K events e ∧ SinceAt P K events := by
  constructor
  · rintro ⟨before, e', after, heq, hP, hafter⟩
    rcases eq_nil_or_concat after with rfl | ⟨after, last, rfl⟩
    · obtain ⟨rfl, hlast⟩ := append_inj' heq rfl
      cases hlast
      exact .inl hP
    · rw [concat_eq_append, ← cons_append, ← append_assoc] at heq
      obtain ⟨rfl, hlast⟩ := append_inj' heq rfl
      cases hlast
      rw [concat_eq_append, throughout_concat] at hafter
      exact .inr ⟨hafter.2, before, e', after, rfl, hP, hafter.1⟩
  · rintro (hP | ⟨hK, before, e', after, rfl, hP, hafter⟩)
    · exact ⟨events, e, [], rfl, hP, throughout_nil⟩
    · exact ⟨before, e', after ++ [e], by simp, hP, throughout_concat.2 ⟨hafter, hK⟩⟩

/-- A property of the state that `P` sets and all but `K` resets. -/
theorem iff_sinceAt {R : List ε → Prop} (hinit : ¬R [])
    (hstep : ∀ before e, R (before ++ [e]) ↔ P before e ∨ K before e ∧ R before)
    (events : List ε) : R events ↔ SinceAt P K events := by
  induction events using reverseRecOn with
  | nil => exact iff_of_false hinit not_sinceAt_nil
  | append_singleton events e ih => rw [hstep, sinceAt_concat, ih]

/-- The event `e` has happened, and every later one has `P`. -/
def Since (e : ε) (P : ε → Prop) (events : List ε) : Prop :=
  ∃ before after, events = before ++ e :: after ∧ ∀ e' ∈ after, P e'

theorem since_iff_sinceAt {P : ε → Prop} :
    Since e P events ↔ SinceAt (fun _ e' => e' = e) (fun _ => P) events := by
  simp only [Since, SinceAt, throughout_mem_iff]
  constructor
  · rintro ⟨before, after, heq, hafter⟩
    exact ⟨before, e, after, heq, rfl, hafter⟩
  · rintro ⟨before, _, after, heq, rfl, hafter⟩
    exact ⟨before, after, heq, hafter⟩

theorem not_since_nil {P : ε → Prop} : ¬Since e P [] := by
  rw [since_iff_sinceAt]
  exact not_sinceAt_nil

theorem since_concat {e e' : ε} {P : ε → Prop} :
    Since e P (events ++ [e']) ↔ e' = e ∨ P e' ∧ Since e P events := by
  simp only [since_iff_sinceAt, sinceAt_concat]

/-- The last value that an event has set, or `d` before the first. -/
def latest {α : Type} (f : ε → Option α) (d : α) (events : List ε) : α :=
  (events.filterMap f).getLast?.getD d

theorem latest_concat {α : Type} {f : ε → Option α} {d : α} :
    latest f d (events ++ [e]) = (f e).getD (latest f d events) := by
  rw [latest, latest, filterMap_append]
  cases hf : f e <;> simp [hf]

/-- Whether `Since e P` holds, event by event. -/
theorem since_iff_foldl [DecidableEq ε] {P : ε → Prop} [DecidablePred P] (events : List ε) :
    Since e P events ↔
      events.foldl (fun b e' => decide (e' = e) || (decide (P e') && b)) false = true := by
  induction events using reverseRecOn with
  | nil => exact iff_of_false not_since_nil (by simp)
  | append_singleton events e' ih => simp [since_concat, ih]

instance [DecidableEq ε] {e : ε} {P : ε → Prop} [DecidablePred P] : Decidable (Since e P events) :=
  decidable_of_iff' _ (since_iff_foldl events)

end BebaCtrl.History
