import Mathlib.Data.List.Dedup

/-!
# Lists of items with keys

Items are matched by a key, and the items of one key are what a `filter` leaves. Removing items by
equality, one after the other, goes key by key.
-/

namespace BebaCtrl.Keyed

open List

variable {α κ : Type} [DecidableEq κ] (key : α → κ)

/-- The items with the given key. -/
@[grind] def ofKey (k : κ) (items : List α) : List α := items.filter fun x => key x = k

/-- The first item with the key of `x`. -/
def findMatch (items : List α) (x : α) : Option α := items.find? fun y => key y = key x

variable {key} {k : κ} {items : List α} {x : α}

theorem mem_ofKey : x ∈ ofKey key k items ↔ x ∈ items ∧ key x = k := by
  simp [ofKey]

@[simp] theorem ofKey_nil (k : κ) : ofKey key k [] = [] := rfl

theorem ofKey_append (k : κ) (items items' : List α) :
    ofKey key k (items ++ items') = ofKey key k items ++ ofKey key k items' :=
  filter_append ..

theorem ofKey_concat_of_eq (h : key x = k) (items : List α) :
    ofKey key k (items ++ [x]) = ofKey key k items ++ [x] := by
  simp [ofKey, h]

theorem ofKey_concat_of_ne (h : key x ≠ k) (items : List α) :
    ofKey key k (items ++ [x]) = ofKey key k items := by
  simp [ofKey, h]

/-- An item with a key that no other has. -/
theorem ofKey_concat_of_nil (h : ofKey key (key x) items = []) (k : κ) :
    ofKey key k (items ++ [x]) = if k = key x then [x] else ofKey key k items := by
  split
  · rename_i hk
    rw [ofKey_concat_of_eq hk.symm, hk, h, nil_append]
  · rename_i hk
    exact ofKey_concat_of_ne (fun heq => hk heq.symm) _

theorem findMatch_eq (items : List α) (x : α) :
    findMatch key items x = (ofKey key (key x) items).head? :=
  head?_filter.symm

theorem findMatch_isSome_iff : (findMatch key items x).isSome ↔ ofKey key (key x) items ≠ [] := by
  rw [findMatch_eq]
  simp

theorem mem_of_findMatch {x y : α} (h : findMatch key items x = some y) :
    y ∈ items ∧ key y = key x := by
  rw [findMatch_eq] at h
  exact mem_ofKey.1 (mem_of_head? h)

/-! A list with one item for each key, as a table. -/

theorem find?_filter_ne (k k' : κ) (items : List α) :
    (items.filter fun x => key x ≠ k').find? (fun x => key x = k) =
      if k = k' then none else items.find? fun x => key x = k := by
  split
  · rename_i hk
    simp [hk]
  · grind

theorem find?_filter_ne_concat (k : κ) (items : List α) (x : α) :
    (items.filter (fun y => key y ≠ key x) ++ [x]).find? (fun y => key y = k) =
      if k = key x then some x else items.find? fun y => key y = k := by
  rw [find?_append, find?_filter_ne]
  split
  · rename_i hk
    simp [hk]
  · rename_i hk
    simp [Ne.symm hk]

theorem mem_iff_find? (h : (items.map key).Nodup) :
    x ∈ items ↔ items.find? (fun y => key y = key x) = some x := by
  refine ⟨fun hx => ?_, mem_of_find?_eq_some⟩
  induction items with
  | nil => simp at hx
  | cons y items ih =>
    rw [map_cons, nodup_cons] at h
    rcases mem_cons.1 hx with rfl | hx
    · simp
    · have hne : key y ≠ key x := fun heq => h.1 (heq ▸ mem_map_of_mem hx)
      simp [hne, ih h.2 hx]

theorem ofKey_eq_toList (h : (items.map key).Nodup) (k : κ) :
    ofKey key k items = (items.find? fun x => key x = k).toList := by
  induction items with
  | nil => rfl
  | cons x items ih =>
    rw [map_cons, nodup_cons] at h
    by_cases hx : key x = k
    · have hnone : ofKey key k items = [] := filter_eq_nil_iff.2 fun y hy heq =>
        h.1 ((hx.trans (by simpa using heq : key y = k).symm) ▸ mem_map_of_mem hy)
      simp only [ofKey] at hnone
      simp [ofKey, hx, hnone]
    · have htail := ih h.2
      simp only [ofKey] at htail
      simp [ofKey, hx, htail]

/-- The items that are matched, by key. -/
theorem ofKey_filterMap_findMatch (k : κ) (items xs : List α) :
    ofKey key k (xs.filterMap (findMatch key items)) =
      (ofKey key k xs).filterMap fun _ => (ofKey key k items).head? := by
  induction xs with
  | nil => rfl
  | cons x xs ih =>
    by_cases hx : key x = k
    · have hxs : ofKey key k (x :: xs) = x :: ofKey key k xs := by simp [ofKey, hx]
      rw [hxs, filterMap_cons, filterMap_cons, ← ih, findMatch_eq, hx]
      cases hhead : (ofKey key k items).head? with
      | none => rfl
      | some y => simp [ofKey, (mem_ofKey.1 (mem_of_head? hhead)).2]
    · have hxs : ofKey key k (x :: xs) = ofKey key k xs := by simp [ofKey, hx]
      rw [hxs, filterMap_cons, ← ih]
      cases hm : findMatch key items x with
      | none => rfl
      | some y =>
        have hy : key y ≠ k := fun h => hx ((mem_of_findMatch hm).2.symm.trans h)
        simp [ofKey, hy]

variable (key) in
theorem nodup_of_length_le_one (h : ∀ k, (ofKey key k items).length ≤ 1) : items.Nodup := by
  induction items with
  | nil => exact nodup_nil
  | cons x items ih =>
    refine nodup_cons.2 ⟨fun hx => ?_, ih fun k => ?_⟩
    · have hlen : 1 ≤ (ofKey key (key x) items).length :=
        length_pos_of_mem (mem_ofKey.2 ⟨hx, rfl⟩)
      have htwo := h (key x)
      simp only [ofKey, filter_cons, decide_true, if_true, length_cons] at htwo hlen
      omega
    · have hsub := List.Sublist.filter (fun y => key y = k) (sublist_cons_self x items)
      exact Nat.le_trans hsub.length_le (h k)

variable [DecidableEq α]

theorem ofKey_erase (k : κ) (items : List α) (x : α) :
    ofKey key k (items.erase x) = (ofKey key k items).erase x := by
  induction items with
  | nil => rfl
  | cons y items ih => grind

theorem ofKey_foldl_erase (k : κ) (removed items : List α) :
    ofKey key k (removed.foldl List.erase items) =
      (ofKey key k removed).foldl List.erase (ofKey key k items) := by
  induction removed generalizing items with
  | nil => rfl
  | cons x removed ih =>
    rw [foldl_cons, ih, ofKey_erase]
    by_cases hx : key x = k
    · simp [ofKey, hx]
    · have hnot : x ∉ ofKey key k items := fun h => hx (mem_ofKey.1 h).2
      rw [erase_of_not_mem hnot]
      simp [ofKey, hx]

omit [DecidableEq κ] in
theorem foldl_erase_self (items : List α) : items.foldl List.erase items = [] := by
  induction items with
  | nil => rfl
  | cons x items ih => simpa using ih

variable (key)

/-- Each new item takes the place of one old item with its key. -/
def removeOld (items : List α) : List α → List α
  | [] => items
  | x :: newItems =>
    match findMatch key items x with
    | some old => removeOld (items.erase old) newItems
    | none => removeOld items newItems

variable {key}

theorem removeOld_sublist (items newItems : List α) : removeOld key items newItems <+ items := by
  induction newItems generalizing items with
  | nil => exact .refl _
  | cons y newItems ih =>
    rw [removeOld]
    split
    · exact (ih _).trans erase_sublist
    · exact ih _

theorem mem_of_mem_removeOld {items newItems : List α} (h : x ∈ removeOld key items newItems) :
    x ∈ items :=
  (removeOld_sublist items newItems).subset h

theorem ofKey_removeOld (k : κ) (items newItems : List α) :
    ofKey key k (removeOld key items newItems) =
      (ofKey key k items).drop (ofKey key k newItems).length := by
  induction newItems generalizing items with
  | nil => rfl
  | cons x newItems ih =>
    rw [removeOld]
    cases hm : findMatch key items x with
    | none =>
      simp only [ih]
      rw [findMatch_eq, head?_eq_none_iff] at hm
      by_cases hx : key x = k
      · simp [← hx, hm]
      · simp [ofKey, hx]
    | some old =>
      simp only [ih, ofKey_erase]
      rw [findMatch_eq, head?_eq_some_iff] at hm
      obtain ⟨rest, hm⟩ := hm
      by_cases hx : key x = k
      · have hnew : ofKey key k (x :: newItems) = x :: ofKey key k newItems := by simp [ofKey, hx]
        rw [hnew, ← hx, hm]
        simp
      · have hkey : key old = key x := (mem_ofKey.1 (hm ▸ mem_cons_self)).2
        have hnot : old ∉ ofKey key k items := fun h => hx (hkey.symm.trans (mem_ofKey.1 h).2)
        rw [erase_of_not_mem hnot]
        simp [ofKey, hx]

/-- With one item for each key, those stay whose key is not new. -/
theorem mem_removeOld_iff {items newItems : List α} (h : (items.map key).Nodup) :
    x ∈ removeOld key items newItems ↔ x ∈ items ∧ key x ∉ newItems.map key := by
  have hof : x ∈ removeOld key items newItems ↔
      x ∈ (ofKey key (key x) items).drop (ofKey key (key x) newItems).length := by
    rw [← ofKey_removeOld, mem_ofKey, and_iff_left rfl]
  have hlen : (ofKey key (key x) items).length ≤ 1 := by
    rw [ofKey_eq_toList h]
    cases items.find? fun y => key y = key x <;> simp
  have hnew : key x ∉ newItems.map key ↔ ofKey key (key x) newItems = [] := by
    rw [ofKey, filter_eq_nil_iff]
    simp
  rw [hof, hnew]
  by_cases hnil : ofKey key (key x) newItems = []
  · simp [hnil, mem_ofKey]
  · have hpos := length_pos_iff.2 hnil
    rw [drop_eq_nil_of_le (by omega)]
    simp [hnil]

end BebaCtrl.Keyed
