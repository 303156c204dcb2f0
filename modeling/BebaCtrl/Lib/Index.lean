import BebaCtrl.Lib.Dict
import Mathlib.Data.Finset.Basic

/-!
# An index with entries that come and go

An index maps keys to sets of members. The entry of a key is made when the first member is linked to
it. When members are unlinked, the entries that become empty are noted, and deleted after the loop.
The index is tidy if no entry is empty; then it is determined by its `members`.

The loops go over items with keys, as the items need not be the keys themselves.
-/

namespace BebaCtrl.Index

open List Dict

variable {α κ ι : Type} [DecidableEq κ] [DecidableEq ι]

def members (d : Dict κ (Finset ι)) (k : κ) : Finset ι := (d.lookup k).getD ∅

def Tidy (d : Dict κ (Finset ι)) : Prop := ∀ k s, d.lookup k = some s → s.Nonempty

/-! ### Linking -/

def link (key : α → κ) (x : ι) (d : Dict κ (Finset ι)) (a : α) : Dict κ (Finset ι) :=
  d.insert (key a) (insert x (members d (key a)))

def linkAll (key : α → κ) (x : ι) (as : List α) (d : Dict κ (Finset ι)) : Dict κ (Finset ι) :=
  as.foldl (link key x) d

variable {key : α → κ} {x : ι} {d d' : Dict κ (Finset ι)}

omit [DecidableEq ι] in
theorem tidy_empty : Tidy (∅ : Dict κ (Finset ι)) := by
  intro k s h
  simp at h

theorem members_link (a : α) (k : κ) :
    members (link key x d a) k = if k = key a then insert x (members d k) else members d k := by
  rw [members, link, lookup_insert]
  split
  next h => rw [h, Option.getD_some]
  next h => rfl

theorem Tidy.link (h : Tidy d) (a : α) : Tidy (link key x d a) := by
  intro k s hs
  rw [Index.link, lookup_insert] at hs
  split at hs
  · cases hs
    exact Finset.insert_nonempty ..
  · exact h k s hs

variable {as : List α}

theorem mem_members_linkAll {k : κ} {y : ι} :
    y ∈ members (linkAll key x as d) k ↔ y ∈ members d k ∨ y = x ∧ ∃ a ∈ as, key a = k := by
  induction as generalizing d with
  | nil => simp [linkAll]
  | cons a as ih =>
    have hcons : linkAll key x (a :: as) d = linkAll key x as (link key x d a) := rfl
    rw [hcons, ih, members_link, exists_mem_cons_iff]
    by_cases hk : k = key a
    · simp only [hk, if_true, Finset.mem_insert, true_or, and_true]
      tauto
    · simp [hk, Ne.symm hk]

theorem Tidy.linkAll (h : Tidy d) (as : List α) : Tidy (linkAll key x as d) := by
  induction as generalizing d with
  | nil => exact h
  | cons a as ih => exact ih (h.link a)

/-! ### Unlinking -/

variable [DecidableEq α]

/-- One round of the loop; an item without an entry raises. -/
def unlink (key : α → κ) (x : ι) (r : Dict κ (Finset ι) × List α) (a : α) :
    PyResult (Dict κ (Finset ι) × List α) :=
  match r.1.lookup (key a) with
  | none => .error .typeError
  | some s =>
    if s = ∅ then .ok r
    else .ok (r.1.insert (key a) (s.erase x), if s.erase x = ∅ then r.2.insert a else r.2)

def unlinkAll (key : α → κ) (x : ι) (as : List α) (d : Dict κ (Finset ι)) :
    PyResult (Dict κ (Finset ι)) := do
  let r ← as.foldlM (unlink key x) (d, [])
  r.2.foldlM (fun d a => d.delItem (key a)) r.1

/-- The entries that are noted are those that are empty. -/
structure Noted (key : α → κ) (d : Dict κ (Finset ι)) (noted : List α) : Prop where
  nodup : (noted.map key).Nodup
  mem_iff : ∀ k, k ∈ noted.map key ↔ d.lookup k = some ∅

omit [DecidableEq ι] [DecidableEq α] in
theorem Tidy.noted (h : Tidy d) (key : α → κ) : Noted key d [] := by
  refine ⟨nodup_nil, fun k => ⟨by simp, fun hk => ?_⟩⟩
  exact absurd (h k ∅ hk) Finset.not_nonempty_empty

theorem unlink_eq_ok {noted : List α} {a : α} {s : Finset ι} (h : Noted key d noted)
    (hs : d.lookup (key a) = some s) :
    ∃ d' noted', unlink key x (d, noted) a = .ok (d', noted') ∧ Noted key d' noted' ∧
      ∀ k, d'.lookup k = if k = key a then (d.lookup k).map (·.erase x) else d.lookup k := by
  by_cases hempty : s = ∅
  · subst hempty
    refine ⟨d, noted, by simp [unlink, hs], h, fun k => ?_⟩
    split
    next hk => rw [hk, hs, Option.map_some, Finset.erase_empty]
    next => rfl
  · have hlookup : ∀ k, (d.insert (key a) (s.erase x)).lookup k =
        if k = key a then (d.lookup k).map (·.erase x) else d.lookup k := by
      intro k
      rw [lookup_insert]
      split
      next hk => rw [hk, hs, Option.map_some]
      next => rfl
    have hnew : key a ∉ noted.map key := by
      rw [h.mem_iff, hs, Option.some.injEq]
      exact hempty
    refine ⟨d.insert (key a) (s.erase x), if s.erase x = ∅ then noted.insert a else noted,
      by simp only [unlink, hs, if_neg hempty], ?_, hlookup⟩
    have hmem : ∀ k, k ≠ key a → (k ∈ noted.map key ↔
        (d.insert (key a) (s.erase x)).lookup k = some ∅) := by
      intro k hk
      rw [hlookup, if_neg hk, h.mem_iff]
    have hself : (d.insert (key a) (s.erase x)).lookup (key a) = some ∅ ↔ s.erase x = ∅ := by
      rw [hlookup, if_pos rfl, hs, Option.map_some, Option.some.injEq]
    by_cases hlast : s.erase x = ∅
    · have ha : a ∉ noted := fun ha => hnew (mem_map_of_mem ha)
      rw [if_pos hlast, insert_of_not_mem ha]
      refine ⟨nodup_cons.2 ⟨hnew, h.nodup⟩, fun k => ?_⟩
      rw [map_cons, mem_cons]
      by_cases hk : k = key a
      · rw [hk, hself]
        exact iff_of_true (.inl rfl) hlast
      · rw [← hmem k hk]
        exact or_iff_right hk
    · rw [if_neg hlast]
      refine ⟨h.nodup, fun k => ?_⟩
      by_cases hk : k = key a
      · rw [hk, hself]
        exact iff_of_false hnew hlast
      · exact hmem k hk

theorem foldlM_unlink {noted : List α} (h : Noted key d noted) (has : ∀ a ∈ as, key a ∈ d) :
    ∃ d' noted', as.foldlM (unlink key x) (d, noted) = .ok (d', noted') ∧ Noted key d' noted' ∧
      ∀ k, d'.lookup k =
        if k ∈ as.map key then (d.lookup k).map (·.erase x) else d.lookup k := by
  induction as generalizing d noted with
  | nil => exact ⟨d, noted, rfl, h, fun k => by simp⟩
  | cons a as ih =>
    obtain ⟨s, hs⟩ := mem_iff_lookup.1 (has a mem_cons_self)
    obtain ⟨d₁, noted₁, hstep, hnoted₁, hlookup₁⟩ := unlink_eq_ok (x := x) h hs
    have hmem₁ : ∀ b ∈ as, key b ∈ d₁ := by
      intro b hb
      obtain ⟨s', hs'⟩ := mem_iff_lookup.1 (has b (mem_cons_of_mem _ hb))
      rw [mem_iff_lookup, hlookup₁, hs']
      split
      · exact ⟨_, rfl⟩
      · exact ⟨_, rfl⟩
    obtain ⟨d', noted', hrest, hnoted', hlookup'⟩ := ih hnoted₁ hmem₁
    refine ⟨d', noted', by rw [foldlM_cons, hstep]; exact hrest, hnoted', fun k => ?_⟩
    rw [hlookup', hlookup₁]
    by_cases hk : k = key a
    · -- a second item with the same key changes nothing
      have hidem : (·.erase x) ∘ (·.erase x) = fun s : Finset ι => s.erase x :=
        funext fun s => Finset.erase_idem
      simp [hk, hidem, ite_self]
    · simp [hk]

omit [DecidableEq ι] [DecidableEq α] in
theorem foldlM_delItem (hnodup : (as.map key).Nodup) (has : ∀ a ∈ as, key a ∈ d) :
    ∃ d', as.foldlM (fun d a => d.delItem (key a)) d = .ok d' ∧
      ∀ k, d'.lookup k = if k ∈ as.map key then none else d.lookup k := by
  induction as generalizing d with
  | nil => exact ⟨d, rfl, fun k => by simp⟩
  | cons a as ih =>
    obtain ⟨hnew, hnodup⟩ := nodup_cons.1 hnodup
    have hrest : ∀ b ∈ as, key b ∈ d.erase (key a) := by
      intro b hb
      refine AList.mem_erase.2 ⟨?_, has b (mem_cons_of_mem _ hb)⟩
      intro heq
      exact hnew (heq ▸ mem_map_of_mem hb)
    obtain ⟨d', hok, hlookup⟩ := ih hnodup hrest
    refine ⟨d', ?_, fun k => ?_⟩
    · rw [foldlM_cons, delItem_of_mem (has a mem_cons_self)]
      exact hok
    · rw [hlookup, lookup_erase]
      by_cases hk : k = key a
      · simp [hk]
      · simp [hk]

/-- The member is unlinked from the items that it was linked to, and the index stays tidy. -/
theorem unlinkAll_eq_ok (h : Tidy d) (hx : ∀ a ∈ as, x ∈ members d (key a)) :
    ∃ d', unlinkAll key x as d = .ok d' ∧ Tidy d' ∧
      ∀ k y, y ∈ members d' k ↔ y ∈ members d k ∧ ¬(y = x ∧ ∃ a ∈ as, key a = k) := by
  have has : ∀ a ∈ as, key a ∈ d := by
    intro a ha
    by_contra hnone
    have hmem := hx a ha
    rw [members, AList.lookup_eq_none.2 hnone] at hmem
    exact Finset.notMem_empty x hmem
  obtain ⟨d₁, noted, hloop, hnoted, hlookup₁⟩ := foldlM_unlink (x := x) (h.noted key) has
  have hnotedMem : ∀ a ∈ noted, key a ∈ d₁ := fun a ha =>
    mem_of_lookup ((hnoted.mem_iff _).1 (mem_map_of_mem ha))
  obtain ⟨d', hdel, hlookup'⟩ := foldlM_delItem hnoted.nodup hnotedMem
  have hmembers : ∀ k, members d' k = members d₁ k := by
    intro k
    rw [members, hlookup']
    split
    next hk => rw [members, (hnoted.mem_iff k).1 hk]; rfl
    next => rfl
  refine ⟨d', ?_, ?_, fun k y => ?_⟩
  · rw [unlinkAll, hloop]
    exact hdel
  · intro k s hs
    rw [hlookup'] at hs
    split at hs
    · cases hs
    · rename_i hk
      rw [Finset.nonempty_iff_ne_empty]
      rintro rfl
      exact hk ((hnoted.mem_iff k).2 hs)
  · rw [hmembers, members, hlookup₁]
    by_cases hk : k ∈ as.map key
    · rw [if_pos hk]
      simp only [mem_map.1 hk, and_true]
      cases hlookup : d.lookup k with
      | none => simp [members, hlookup]
      | some s => simp [members, hlookup, Finset.mem_erase, and_comm]
    · rw [mem_map] at hk
      simp [hk, members]

end BebaCtrl.Index
