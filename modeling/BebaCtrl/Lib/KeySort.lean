import Mathlib.Data.List.Sort

/-!
# Sorting by a key

A stable sort by a key gives the same list for every order of its input when the keys are distinct.
Two elements with the same key stay in the order in which they came, so an input with such elements
has two orders with different results.
-/

namespace BebaCtrl

open List

variable {α κ : Type*}

/-- Two elements do not stand in both orders in a list without repetitions. -/
theorem not_sublist_swap {l : List α} (hl : l.Nodup) {a b : α} (hab : [a, b].Sublist l) :
    ¬[b, a].Sublist l := by
  induction l with
  | nil => simp at hab
  | cons x l ih =>
    intro hba
    rw [nodup_cons] at hl
    rcases sublist_cons_iff.1 hab with htail | ⟨r, hr, htail⟩
    · rcases sublist_cons_iff.1 hba with htail' | ⟨r, hr, htail'⟩
      · exact ih hl.2 htail htail'
      · cases hr
        exact hl.1 (htail.subset (by simp))
    · cases hr
      rcases sublist_cons_iff.1 hba with htail' | ⟨r, hr, htail'⟩
      · exact hl.1 (htail'.subset (by simp))
      · cases hr
        exact hl.1 (htail'.subset (by simp))

/-- Two elements with the same image can be brought to the front. -/
theorem exists_perm_of_not_nodup_map {l : List α} (hl : l.Nodup) {f : α → κ}
    (h : ¬(l.map f).Nodup) : ∃ a b rest, (a :: b :: rest).Perm l ∧ f a = f b := by
  classical
  rw [nodup_map_iff_inj_on hl] at h
  push Not at h
  obtain ⟨a, ha, b, hb, hf, hne⟩ := h
  have hb' : b ∈ l.erase a := (mem_erase_of_ne hne.symm).2 hb
  refine ⟨a, b, (l.erase a).erase b, ?_, hf⟩
  exact ((perm_cons_erase hb').cons a).symm.trans (perm_cons_erase ha).symm

section Keys

variable [LinearOrder κ] {key : α → κ}

/-- Two orders of a list with distinct keys are sorted to the same list. -/
theorem mergeSort_eq_of_perm {l l' : List α} (hperm : l.Perm l') (hkey : (l.map key).Nodup) :
    (l.mergeSort fun x y => key x ≤ key y) = l'.mergeSort fun x y => key x ≤ key y := by
  have hsorted (l : List α) :
      (l.mergeSort fun x y => key x ≤ key y).Pairwise fun x y => decide (key x ≤ key y) = true :=
    pairwise_mergeSort (by simpa using fun a b c => le_trans)
      (by simpa using fun a b => le_total _ _) l
  refine List.Perm.eq_of_pairwise ?_ (hsorted l) (hsorted l')
    ((mergeSort_perm _ _).trans (hperm.trans (mergeSort_perm _ _).symm))
  intro a b ha hb hab hba
  have ha' : a ∈ l := (mergeSort_perm _ _).mem_iff.1 ha
  have hb' : b ∈ l := hperm.mem_iff.2 ((mergeSort_perm _ _).mem_iff.1 hb)
  simp only [decide_eq_true_eq] at hab hba
  exact inj_on_of_nodup_map hkey ha' hb' (le_antisymm hab hba)

/-- Elements with the same key keep their order. -/
theorem mergeSort_swap_ne {a b : α} {l : List α} (hl : (a :: b :: l).Nodup) (hkey : key a = key b) :
    ((a :: b :: l).mergeSort fun x y => key x ≤ key y) ≠
      (b :: a :: l).mergeSort fun x y => key x ≤ key y := by
  have hstable {x y : α} (hxy : key x = key y) :
      [x, y].Sublist ((x :: y :: l).mergeSort fun x y => key x ≤ key y) :=
    pair_sublist_mergeSort (by simpa using fun a b c => le_trans)
      (by simpa using fun a b => le_total _ _) (by simp [hxy]) (by simp)
  intro heq
  have hnodup := (mergeSort_perm (a :: b :: l) fun x y => key x ≤ key y).nodup_iff.2 hl
  refine not_sublist_swap hnodup (hstable hkey) ?_
  rw [heq]
  exact hstable hkey.symm

end Keys

end BebaCtrl
