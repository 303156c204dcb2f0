import Mathlib.Data.List.AList
import BebaCtrl.Lib.Python

/-!
# Dictionaries

A dictionary is an association list without repeated keys. The order of a dictionary of Python 2 is
arbitrary; here a key that is written moves to the front.
-/

namespace BebaCtrl

open List

abbrev Dict (κ ν : Type) : Type := AList fun _ : κ => ν

namespace Dict

variable {κ ν : Type}

def values (d : Dict κ ν) : List ν := d.entries.map Sigma.snd

variable [DecidableEq κ] {d : Dict κ ν} {k k' : κ} {v v' : ν}

/-- `d[k]` -/
def getItem (d : Dict κ ν) (k : κ) : PyResult ν :=
  match d.lookup k with
  | some v => .ok v
  | none => .error .keyError

/-- `del d[k]` -/
def delItem (d : Dict κ ν) (k : κ) : PyResult (Dict κ ν) :=
  if k ∈ d then .ok (d.erase k) else .error .keyError

theorem getItem_of_lookup (h : d.lookup k = some v) : d.getItem k = .ok v := by
  rw [getItem, h]

theorem getItem_of_notMem (h : k ∉ d) : d.getItem k = .error .keyError := by
  rw [getItem, AList.lookup_eq_none.2 h]

theorem delItem_of_mem (h : k ∈ d) : d.delItem k = .ok (d.erase k) := if_pos h

theorem delItem_of_notMem (h : k ∉ d) : d.delItem k = .error .keyError := if_neg h

theorem mem_iff_lookup : k ∈ d ↔ ∃ v, d.lookup k = some v := by
  rw [← AList.lookup_isSome, Option.isSome_iff_exists]

theorem mem_of_lookup (h : d.lookup k = some v) : k ∈ d := mem_iff_lookup.2 ⟨v, h⟩

theorem mem_entries : (⟨k, v⟩ : Sigma fun _ : κ => ν) ∈ d.entries ↔ d.lookup k = some v :=
  AList.mem_lookup_iff.symm

theorem mem_values : v ∈ d.values ↔ ∃ k, d.lookup k = some v := by
  simp only [values, mem_map, Sigma.exists, mem_entries]
  constructor
  · rintro ⟨k, _, h, rfl⟩
    exact ⟨k, h⟩
  · rintro ⟨k, h⟩
    exact ⟨k, v, h, rfl⟩

theorem lookup_insert : (d.insert k v).lookup k' = if k' = k then some v else d.lookup k' := by
  split
  next h => rw [h, AList.lookup_insert]
  next h => rw [AList.lookup_insert_ne h]

theorem lookup_erase : (d.erase k).lookup k' = if k' = k then none else d.lookup k' := by
  split
  next h => rw [h, AList.lookup_erase]
  next h => rw [AList.lookup_erase_ne h]

theorem erase_of_notMem (h : k ∉ d) : d.erase k = d :=
  AList.ext (kerase_of_notMem_keys fun hk => h (AList.mem_keys.2 hk))

theorem find?_entries : d.entries.find? (·.1 = k) = (d.lookup k).map fun v => ⟨k, v⟩ := by
  change _ = (dlookup k d.entries).map fun v => (⟨k, v⟩ : Sigma fun _ : κ => ν)
  induction d.entries with
  | nil => rfl
  | cons entry entries ih =>
    obtain ⟨k', v⟩ := entry
    by_cases hk : k = k'
    · subst hk
      simp
    · rw [dlookup_cons_ne _ _ hk, find?_cons_of_neg (by simpa using Ne.symm hk), ih]

variable {ks : List κ}

/-- The loop `for k in ks: d[k] = v`. -/
theorem lookup_foldl_insert : (ks.foldl (fun d k => d.insert k v) d).lookup k' =
    if k' ∈ ks then some v else d.lookup k' := by
  induction ks generalizing d with
  | nil => simp
  | cons k ks ih =>
    rw [foldl_cons, ih, lookup_insert]
    grind

/-! ### Changing values in place -/

/-- Changes the value of `k`, if it has one. -/
def alter (d : Dict κ ν) (k : κ) (f : ν → ν) : Dict κ ν :=
  match d.lookup k with
  | some v => d.insert k (f v)
  | none => d

theorem lookup_alter {f : ν → ν} :
    (d.alter k f).lookup k' = if k' = k then (d.lookup k').map f else d.lookup k' := by
  unfold alter
  split
  next v hv =>
    rw [lookup_insert]
    grind
  next hnone => grind

/-- The loop `for k in ks` over different keys. -/
theorem lookup_foldl_alter {f : ν → ν} (hks : ks.Nodup) :
    (ks.foldl (fun d k => d.alter k f) d).lookup k' =
      if k' ∈ ks then (d.lookup k').map f else d.lookup k' := by
  induction ks generalizing d with
  | nil => simp
  | cons k ks ih =>
    obtain ⟨hk, hks⟩ := nodup_cons.1 hks
    rw [foldl_cons, ih hks, lookup_alter]
    grind

/-- Changes every value. -/
def mapValues (d : Dict κ ν) (f : ν → ν) : Dict κ ν where
  entries := d.entries.map (.map id fun _ => f)
  nodupKeys := by
    rw [List.NodupKeys, keys, map_map]
    exact d.nodupKeys

theorem lookup_mapValues {f : ν → ν} : (d.mapValues f).lookup k = (d.lookup k).map f :=
  dlookup_map₂ k

/-- Changes every value, by its key; the order stays. -/
def mapEntries (d : Dict κ ν) (f : κ → ν → ν) : Dict κ ν where
  entries := d.entries.map fun entry => ⟨entry.1, f entry.1 entry.2⟩
  nodupKeys := by
    rw [List.NodupKeys, keys, map_map]
    exact d.nodupKeys

variable {f g : κ → ν → ν}

omit [DecidableEq κ] in
theorem mapEntries_mapEntries :
    (d.mapEntries f).mapEntries g = d.mapEntries fun k v => g k (f k v) :=
  AList.ext (map_map ..)

omit [DecidableEq κ] in
theorem mapEntries_id : d.mapEntries (fun _ => id) = d := AList.ext (map_id _)

omit [DecidableEq κ] in
theorem keys_mapEntries : (d.mapEntries f).keys = d.keys := map_map ..

theorem mapEntries_congr (h : ∀ k v, d.lookup k = some v → f k v = g k v) :
    d.mapEntries f = d.mapEntries g := by
  apply AList.ext
  apply map_congr_left
  rintro ⟨k, v⟩ hmem
  rw [h k v (mem_entries.1 hmem)]

theorem lookup_mapEntries : (d.mapEntries f).lookup k = (d.lookup k).map (f k) := by
  apply Option.ext
  intro v
  rw [← mem_entries, Option.map_eq_some_iff]
  simp only [mapEntries, mem_map, Sigma.exists, mem_entries, Sigma.mk.injEq, heq_eq_eq]
  grind

/-! ### The order -/

/-- The entries in another order: that of `order` first. -/
def arrange (d : Dict κ ν) (order : List κ) : Dict κ ν :=
  order.foldr (fun k d => d.alter k id) d

theorem lookup_arrange {order : List κ} : (d.arrange order).lookup k = d.lookup k := by
  induction order with
  | nil => rfl
  | cons k' order ih =>
    rw [arrange, foldr_cons, lookup_alter, ← arrange, ih]
    simp

/-! ### Two dictionaries with the same keys -/

variable {μ : Type} {e : Dict κ μ} {w : μ}

def SameKeys (d : Dict κ ν) (e : Dict κ μ) : Prop := ∀ k, k ∈ d ↔ k ∈ e

namespace SameKeys

theorem insert (h : SameKeys d e) : SameKeys (d.insert k v) (e.insert k w) := fun k' => by
  rw [AList.mem_insert, AList.mem_insert, h k']

theorem insert_left (h : SameKeys d e) (hk : k ∈ d) : SameKeys (d.insert k v) e := fun k' =>
  (AList.mem_insert d).trans ((or_iff_right_of_imp fun heq => heq ▸ hk).trans (h k'))

theorem insert_right (h : SameKeys d e) (hk : k ∈ e) : SameKeys d (e.insert k w) := fun k' =>
  (h k').trans ((AList.mem_insert e).trans (or_iff_right_of_imp fun heq => heq ▸ hk)).symm

theorem erase (h : SameKeys d e) : SameKeys (d.erase k) (e.erase k) := fun k' => by
  rw [AList.mem_erase, AList.mem_erase, h k']

end SameKeys

/-! ### Lists by key -/

/-- `d.get(k, [])` -/
def bucket (d : Dict κ (List ν)) (k : κ) : List ν := (d.lookup k).getD []

/-- `d.setdefault(k, []).append(v)` -/
def push (d : Dict κ (List ν)) (k : κ) (v : ν) : Dict κ (List ν) := d.insert k (d.bucket k ++ [v])

theorem bucket_push {d : Dict κ (List ν)} :
    (d.push k v).bucket k' = d.bucket k' ++ if k' = k then [v] else [] := by
  rw [bucket, push, lookup_insert]
  split
  next h => rw [h, Option.getD_some]
  next => rw [append_nil, bucket]

end Dict

end BebaCtrl
