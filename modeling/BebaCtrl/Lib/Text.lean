import Mathlib.Data.List.Basic

/-!
# Texts with separators

A separator that does not occur in the parts of a text tells where they end. Decimal numbers have no
character but digits, and the number can be read back.
-/

namespace BebaCtrl.Text

open List

section Separators

variable {α : Type*} {sep : α} {front front' back back' : List α}

/-- The part in front of the first separator. -/
theorem append_cons_inj_front (h : sep ∉ front) (h' : sep ∉ front') :
    front ++ sep :: back = front' ++ sep :: back' ↔ front = front' ∧ back = back' := by
  constructor
  · intro heq
    induction front generalizing front' with
    | nil =>
      cases front' with
      | nil => exact ⟨rfl, (cons.inj heq).2⟩
      | cons c front' => exact absurd (cons.inj heq).1 (ne_of_not_mem_cons h')
    | cons c front ih =>
      cases front' with
      | nil => exact absurd (cons.inj heq).1.symm (ne_of_not_mem_cons h)
      | cons c' front' =>
        obtain ⟨rfl, htail⟩ := cons.inj heq
        obtain ⟨rfl, hback⟩ :=
          ih (not_mem_of_not_mem_cons h) (not_mem_of_not_mem_cons h') htail
        exact ⟨rfl, hback⟩
  · rintro ⟨rfl, rfl⟩
    rfl

/-- The part behind the last separator. -/
theorem append_cons_inj_back (h : sep ∉ back) (h' : sep ∉ back') :
    front ++ sep :: back = front' ++ sep :: back' ↔ front = front' ∧ back = back' := by
  rw [← reverse_inj, reverse_append, reverse_append, reverse_cons, reverse_cons, append_assoc,
    append_assoc, singleton_append, singleton_append,
    append_cons_inj_front (by simpa using h) (by simpa using h'), reverse_inj, reverse_inj]
  exact and_comm

/-- `sep.join(parts)` -/
def join (sep : α) : List (List α) → List α
  | [] => []
  | [part] => part
  | part :: parts => part ++ sep :: join sep parts

theorem join_cons_cons (part next : List α) (parts : List (List α)) :
    join sep (part :: next :: parts) = part ++ sep :: join sep (next :: parts) := rfl

theorem join_inj {parts parts' : List (List α)} (h : ∀ part ∈ parts, part ≠ [] ∧ sep ∉ part)
    (h' : ∀ part ∈ parts', part ≠ [] ∧ sep ∉ part) (heq : join sep parts = join sep parts') :
    parts = parts' := by
  match parts, parts' with
  | [], [] => rfl
  | [], [part'] => exact absurd heq.symm (h' part' (by simp)).1
  | [part], [] => exact absurd heq (h part (by simp)).1
  | [part], [part'] => exact congrArg (fun p => [p]) heq
  | [], _ :: _ :: _ | _ :: _ :: _, [] => simp [join] at heq
  | [part], part' :: next' :: parts' =>
    refine absurd ?_ (h part (by simp)).2
    rw [show part = _ from heq, join_cons_cons]
    simp
  | part :: next :: parts, [part'] =>
    refine absurd ?_ (h' part' (by simp)).2
    rw [show part' = _ from heq.symm, join_cons_cons]
    simp
  | part :: next :: parts, part' :: next' :: parts' =>
    rw [join_cons_cons, join_cons_cons,
      append_cons_inj_front (h part (by simp)).2 (h' part' (by simp)).2] at heq
    rw [heq.1, join_inj (fun p hp => h p (mem_cons_of_mem _ hp))
      (fun p hp => h' p (mem_cons_of_mem _ hp)) heq.2]

/-- No other characters than those of the parts and the separator. -/
theorem notMem_join {c : α} (hsep : c ≠ sep) {parts : List (List α)}
    (h : ∀ part ∈ parts, c ∉ part) : c ∉ join sep parts := by
  match parts with
  | [] => exact not_mem_nil
  | [part] => exact h part (by simp)
  | part :: next :: parts =>
    have ih := notMem_join hsep fun p hp => h p (mem_cons_of_mem part hp)
    simp [join_cons_cons, h part, hsep, ih]

theorem mem_join {parts : List (List α)} (h : 2 ≤ parts.length) : sep ∈ join sep parts := by
  match parts, h with
  | part :: next :: parts, _ => simp [join_cons_cons]

end Separators

section Numbers

/-- `str(n)` of a natural number -/
def decimal (n : Nat) : List Char := Nat.toDigits 10 n

theorem decimal_inj {n k : Nat} : decimal n = decimal k ↔ n = k := by
  constructor
  · intro h
    have hvalue := congrArg (Nat.ofDigitChars 10 · 0) h
    simpa only [decimal, Nat.ofDigitChars_ten_toDigits] using hvalue
  · rintro rfl
    rfl

theorem notMem_decimal {c : Char} (hc : c.isDigit = false) (n : Nat) : c ∉ decimal n := by
  intro hmem
  rw [Nat.isDigit_of_mem_toDigits (by decide) (by decide) hmem] at hc
  cases hc

/-- The digits of a number without sign -/
def digits (text : List Char) : Option Nat :=
  if text ≠ [] ∧ text.all Char.isDigit then some (Nat.ofDigitChars 10 text 0) else none

def isSpace (c : Char) : Bool := c ∈ [' ', '\t', '\n', '\r', '\x0b', '\x0c']

/-- `int(text)`: blanks around the number are skipped, and a sign may stand in front of it. -/
def pyInt (text : List Char) : Option Int :=
  match ((text.dropWhile isSpace).reverse.dropWhile isSpace).reverse with
  | '-' :: text => (digits text).map fun n => -n
  | '+' :: text => (digits text).map fun n => n
  | text => (digits text).map fun n => n

/-- `str(i)` of an integer -/
def intText : Int → List Char
  | .ofNat n => decimal n
  | .negSucc n => '-' :: decimal (n + 1)

theorem intText_eq_decimal {i : Int} {n : Nat} : intText i = decimal n ↔ i = n := by
  cases i with
  | ofNat k =>
    rw [intText, decimal_inj]
    exact Int.ofNat_inj.symm
  | negSucc k =>
    refine iff_of_false (fun h => notMem_decimal (c := '-') (by decide) n ?_) (by omega)
    rw [← h]
    exact mem_cons_self

end Numbers

end BebaCtrl.Text
