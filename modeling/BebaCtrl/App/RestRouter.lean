import BebaCtrl.Lib.Dict
import BebaCtrl.Lib.History

/-!
# The addresses of the REST router

`rest_router.py` keeps the addresses of a VLAN in a dictionary under the text of the network, and
refuses an address when its network meets a stored one. The order of a dictionary is arbitrary, so
each call comes with the order it meets.
-/

namespace BebaCtrl.RestRouter

open List

/-- Texts, as far as the source looks into them. An address in normal form is its 32 bits. -/
structure Texts (τ : Type) where
  /-- `text.split('/')`, which has a first part -/
  split : τ → τ × List τ
  ipAddrAton : τ → PyResult (BitVec 32)
  int : τ → PyResult Int
  /-- `'%s/%d' % (ip_addr_ntoa(ip), mask)` -/
  key : BitVec 32 → Nat → τ

def commandFailure (msg : String) : PyErr := .other ("CommandFailure: " ++ msg)

/-- For the lengths that do not shift by a negative count. -/
def maskNtob (mask : Fin 33) : BitVec 32 := 0xffffffff#32 <<< (32 - mask.val)

def ipv4ApplyMask (address : BitVec 32) (prefixLen : Fin 33) : BitVec 32 :=
  address &&& maskNtob prefixLen

variable {τ : Type} (T : Texts τ)

def nwAddrAton (nwAddr : τ) : PyResult (BitVec 32 × Fin 33 × BitVec 32) := do
  let (first, others) := T.split nwAddr
  let defaultRoute ← T.ipAddrAton first
  let netmask ← (match others with | [mask] => T.int mask | _ => pure 32 : PyResult Int)
  if h : 0 ≤ netmask ∧ netmask ≤ 32 then
    let netmask : Fin 33 := ⟨netmask.toNat, by omega⟩
    pure (ipv4ApplyMask defaultRoute netmask, netmask, defaultRoute)
  else throw .valueError

section Masks

variable {x y : BitVec 32} {m n : Fin 33}

/-- The mask keeps the bits of the network. -/
theorem applyMask_eq_iff : ipv4ApplyMask x n = ipv4ApplyMask y n ↔
    ∀ i, 32 - n.val ≤ i → x.getLsbD i = y.getLsbD i := by
  have hones : 0xffffffff#32 = BitVec.allOnes 32 := rfl
  simp only [ipv4ApplyMask, maskNtob, hones, BitVec.eq_of_getLsbD_eq_iff, BitVec.getLsbD_and,
    BitVec.getLsbD_shiftLeft, BitVec.getLsbD_allOnes]
  grind

theorem applyMask_of_le (h : ipv4ApplyMask x n = ipv4ApplyMask y n) (hmn : m ≤ n) :
    ipv4ApplyMask x m = ipv4ApplyMask y m := by
  rw [applyMask_eq_iff] at h ⊢
  intro i hi
  exact h i (by omega)

/-- Two networks meet if an address of one lies in the other. -/
theorem exists_applyMask_iff :
    (∃ ip, ipv4ApplyMask ip m = ipv4ApplyMask x m ∧ ipv4ApplyMask ip n = ipv4ApplyMask y n) ↔
      ipv4ApplyMask x m = ipv4ApplyMask y m ∨ ipv4ApplyMask y n = ipv4ApplyMask x n := by
  constructor
  · rintro ⟨ip, hx, hy⟩
    rcases Fin.le_total m n with hmn | hnm
    · exact .inl (hx.symm.trans (applyMask_of_le hy hmn))
    · exact .inr (hy.symm.trans (applyMask_of_le hx hnm))
  · rintro (h | h)
    · exact ⟨y, h.symm, rfl⟩
    · exact ⟨x, rfl, h.symm⟩

end Masks

variable {T} in
theorem eq_of_nwAddrAton {text : τ} {nwAddr ip : BitVec 32} {mask : Fin 33}
    (h : nwAddrAton T text = .ok (nwAddr, mask, ip)) : nwAddr = ipv4ApplyMask ip mask := by
  unfold nwAddrAton at h
  obtain ⟨_, -, h⟩ := bind_eq_ok.1 h
  obtain ⟨_, -, h⟩ := bind_eq_ok.1 h
  split at h <;> cases h
  rfl

/-- The id after `id`; 0 is `COOKIE_DEFAULT_ID`. -/
def nextId (id : Nat) : Nat :=
  let id := (id + 1) &&& 0xffffffff
  if id = 0 then 1 else id

variable [DecidableEq τ]

theorem mem_values_arrange {ν : Type} {d : Dict τ ν} {order : List τ} {v : ν} :
    v ∈ (d.arrange order).values ↔ v ∈ d.values := by
  simp only [Dict.mem_values, Dict.lookup_arrange]

def deleteId {ν : Type} (idOf : ν → Nat) (d : Dict τ ν) (id : Nat) : Dict τ ν :=
  match d.entries.find? fun entry => idOf entry.2 = id with
  | some entry => d.erase entry.1
  | none => d

/-- A call, with the order in which it meets the dictionary. -/
inductive Call (τ α : Type) where
  | add (order : List τ) (args : α)
  | delete (order : List τ) (id : Nat)

/-! ### Addresses -/

@[ext]
structure Address where
  addressId : Nat
  nwAddr : BitVec 32
  netmask : Fin 33
  defaultGw : BitVec 32
  deriving DecidableEq

/-- `ip in address` -/
def Address.Contains (self : Address) (ip : BitVec 32) : Prop :=
  ipv4ApplyMask ip self.netmask = self.nwAddr

instance (self : Address) (ip : BitVec 32) : Decidable (self.Contains ip) :=
  inferInstanceAs (Decidable (_ = _))

structure AddressData (τ : Type) where
  addresses : Dict τ Address := ∅
  addressId : Nat := 1

def AddressData.arrange (self : AddressData τ) (order : List τ) : AddressData τ :=
  { self with addresses := self.addresses.arrange order }

def AddressData.add (self : AddressData τ) (address : τ) : PyResult (Address × AddressData τ) := do
  let (nwAddr, mask, defaultGw) ← nwAddrAton T address
  match self.addresses.values.find? fun other =>
      other.nwAddr = ipv4ApplyMask defaultGw other.netmask ∨
        nwAddr = ipv4ApplyMask other.defaultGw mask with
  | some other => throw (commandFailure s!"Address overlaps [address_id={other.addressId}]")
  | none =>
    let address := ⟨self.addressId, nwAddr, mask, defaultGw⟩
    pure (address, ⟨self.addresses.insert (T.key nwAddr mask) address, nextId self.addressId⟩)

def AddressData.delete (self : AddressData τ) (addressId : Nat) : AddressData τ :=
  { self with addresses := deleteId Address.addressId self.addresses addressId }

/-- The argument is an id or an address. -/
def AddressData.getData (self : AddressData τ) (query : Nat ⊕ BitVec 32) : Option Address :=
  self.addresses.values.find? fun address =>
    match query with
    | .inl addrId => addrId = address.addressId
    | .inr ip => address.Contains ip

def AddressData.call (self : AddressData τ) : Call τ τ → AddressData τ
  | .add order address =>
    match (self.arrange order).add T address with
    | .ok (_, self') => self'
    | .error _ => self
  | .delete order id => (self.arrange order).delete id

/-- The call adds the address, with the next id: its network meets no stored one. -/
def AddressData.Adds (self : AddressData τ) (a : Address) : Call τ τ → Prop
  | .add _ text => nwAddrAton T text = .ok (a.nwAddr, a.netmask, a.defaultGw) ∧
      a.addressId = self.addressId ∧
      ¬∃ other ∈ self.addresses.values, ∃ ip, other.Contains ip ∧ a.Contains ip
  | .delete .. => False

/-- The call removes the address, which is the first with the id. -/
def AddressData.Removes (self : AddressData τ) (a : Address) : Call τ τ → Prop
  | .add .. => False
  | .delete order id =>
    (self.addresses.arrange order).values.find? (fun other => other.addressId = id) = some a

def AddressData.run (calls : List (Call τ τ)) : AddressData τ := calls.foldl (call T) {}

theorem lookup_of_deleteId {ν : Type} {idOf : ν → Nat} {d : Dict τ ν} {id : Nat} {k : τ} {v : ν}
    (h : (deleteId idOf d id).lookup k = some v) : d.lookup k = some v := by
  unfold deleteId at h
  split at h
  · rw [Dict.lookup_erase] at h
    grind
  · exact h

/-- The network of an address is that of its gateway, its key is the text of the network, and no two
networks meet. -/
structure AddressData.Valid (data : AddressData τ) : Prop where
  own : ∀ k a, data.addresses.lookup k = some a →
    k = T.key a.nwAddr a.netmask ∧ a.nwAddr = ipv4ApplyMask a.defaultGw a.netmask
  disjoint : ∀ k a k' a' ip, data.addresses.lookup k = some a → data.addresses.lookup k' = some a' →
    a.Contains ip → a'.Contains ip → k = k'

/-- What the table is for. -/
structure AddressData.Meets (data : AddressData τ) : Prop where
  disjoint : ∀ k a k' a' ip, data.addresses.lookup k = some a → data.addresses.lookup k' = some a' →
    a.Contains ip → a'.Contains ip → k = k'
  add_iff : ∀ order text nwAddr mask defaultGw,
    nwAddrAton T text = .ok (nwAddr, mask, defaultGw) →
    ((∃ r, (data.arrange order).add T text = .ok r) ↔
      ¬∃ a ∈ data.addresses.values, ∃ ip, a.Contains ip ∧ ipv4ApplyMask ip mask = nwAddr)
  getData_iff : ∀ order ip a, (data.arrange order).getData (.inr ip) = some a ↔
    a ∈ data.addresses.values ∧ a.Contains ip

namespace AddressData

variable {T} {self : AddressData τ}

/-- `add` succeeds if no network meets the new one. -/
theorem Valid.add_eq_ok_iff (h : self.Valid T) {order : List τ} {text : τ}
    {nwAddr defaultGw : BitVec 32} {mask : Fin 33} {r : Address × AddressData τ}
    (htext : nwAddrAton T text = .ok (nwAddr, mask, defaultGw)) :
    (self.arrange order).add T text = .ok r ↔
      (¬∃ a ∈ self.addresses.values, ∃ ip, a.Contains ip ∧ ipv4ApplyMask ip mask = nwAddr) ∧
      r = (⟨self.addressId, nwAddr, mask, defaultGw⟩,
        ⟨(self.addresses.arrange order).insert (T.key nwAddr mask)
          ⟨self.addressId, nwAddr, mask, defaultGw⟩, nextId self.addressId⟩) := by
  have hnw := eq_of_nwAddrAton htext
  have hmeets :
      ∀ a ∈ self.addresses.values, (∃ ip, a.Contains ip ∧ ipv4ApplyMask ip mask = nwAddr) ↔
      a.nwAddr = ipv4ApplyMask defaultGw a.netmask ∨ nwAddr = ipv4ApplyMask a.defaultGw mask := by
    intro a ha
    obtain ⟨k, hk⟩ := Dict.mem_values.1 ha
    simp only [Address.Contains, (h.own k a hk).2, hnw, exists_applyMask_iff]
  simp only [add, htext, ok_bind]
  split
  next other hother =>
    have hmem := mem_values_arrange.1 (mem_of_find?_eq_some hother)
    have hover := (hmeets other hmem).2 (by simpa using find?_some hother)
    constructor
    · rintro ⟨⟩
    · rintro ⟨hno, -⟩
      exact absurd ⟨other, hmem, hover⟩ hno
  next hnone =>
    rw [find?_eq_none] at hnone
    have hno :
        ¬∃ a ∈ self.addresses.values, ∃ ip, a.Contains ip ∧ ipv4ApplyMask ip mask = nwAddr := by
      rintro ⟨a, ha, hover⟩
      exact hnone a (mem_values_arrange.2 ha) (by simpa using (hmeets a ha).1 hover)
    rw [and_iff_right hno, pure_eq_ok, Except.ok.injEq, eq_comm]
    rfl

theorem Valid.call (h : self.Valid T) (c : Call τ τ) : (self.call T c).Valid T := by
  cases c with
  | add order text =>
    simp only [AddressData.call]
    split
    next a self' hadd =>
      obtain ⟨⟨nwAddr, mask, defaultGw⟩, htext, -⟩ := bind_eq_ok.1 hadd
      obtain ⟨hno, hr⟩ := (h.add_eq_ok_iff htext).1 hadd
      cases hr
      have hnw := eq_of_nwAddrAton htext
      constructor
      · intro k a
        simp only [Dict.lookup_insert, Dict.lookup_arrange]
        have := h.own k a
        grind
      · intro k a k' a' ip
        simp only [Dict.lookup_insert, Dict.lookup_arrange]
        have := h.disjoint k a k' a' ip
        have := @Dict.mem_values
        grind [Address.Contains]
    next => exact h
  | delete order id =>
    have hlookup : ∀ k a, ((self.arrange order).delete id).addresses.lookup k = some a →
        self.addresses.lookup k = some a := by
      intro k a hk
      simpa [arrange, Dict.lookup_arrange] using lookup_of_deleteId hk
    constructor
    · intro k a hk
      exact h.own k a (hlookup k a hk)
    · intro k a k' a' ip hk hk'
      exact h.disjoint k a k' a' ip (hlookup k a hk) (hlookup k' a' hk')

theorem Valid.meets (h : self.Valid T) : self.Meets T where
  disjoint := h.disjoint
  add_iff order text nwAddr mask defaultGw htext := by
    constructor
    · rintro ⟨r, hr⟩
      exact ((h.add_eq_ok_iff htext).1 hr).1
    · intro hno
      exact ⟨_, (h.add_eq_ok_iff htext).2 ⟨hno, rfl⟩⟩
  getData_iff order ip a := by
    constructor
    · intro hfind
      exact ⟨mem_values_arrange.1 (mem_of_find?_eq_some hfind), by simpa using find?_some hfind⟩
    · rintro ⟨ha, hip⟩
      obtain ⟨k, hk⟩ := Dict.mem_values.1 ha
      cases hfind : (self.arrange order).getData (.inr ip) with
      | none => simpa [hip] using find?_eq_none.1 hfind a (mem_values_arrange.2 ha)
      | some a' =>
        obtain ⟨k', hk'⟩ := Dict.mem_values.1 (mem_values_arrange.1 (mem_of_find?_eq_some hfind))
        obtain rfl := h.disjoint k a k' a' ip hk hk' hip (by simpa using find?_some hfind)
        exact hk'.symm.trans hk

/-- The texts of different networks are different. -/
def KeysDiffer (T : Texts τ) : Prop :=
  ∀ nwAddr nwAddr' mask mask', T.key nwAddr mask = T.key nwAddr' mask' →
    nwAddr = nwAddr' ∧ mask = mask'

/-- An address that `add` accepts is stored with those that are there already. -/
theorem Valid.mem_of_add (h : self.Valid T) (hkeys : KeysDiffer T) {order : List τ} {text : τ}
    {new : Address} {self' : AddressData τ}
    (hadd : (self.arrange order).add T text = .ok (new, self')) (a : Address) :
    self.Adds T new (.add order text) ∧
      (a ∈ self'.addresses.values ↔ a = new ∨ a ∈ self.addresses.values) := by
  obtain ⟨⟨nwAddr, mask, defaultGw⟩, htext, -⟩ := bind_eq_ok.1 hadd
  obtain ⟨hno, hr⟩ := (h.add_eq_ok_iff htext).1 hadd
  cases hr
  have hfresh : self.addresses.lookup (T.key nwAddr mask) = none := by
    rw [Option.eq_none_iff_forall_ne_some]
    intro other hother
    obtain ⟨hkey, hown⟩ := h.own _ other hother
    obtain ⟨rfl, hmask⟩ := hkeys _ _ _ _ hkey
    obtain rfl := Fin.ext hmask
    exact hno ⟨other, Dict.mem_values.2 ⟨_, hother⟩, other.defaultGw, hown.symm, hown.symm⟩
  refine ⟨⟨htext, rfl, hno⟩, ?_⟩
  simp only [Dict.mem_values, Dict.lookup_insert, Dict.lookup_arrange]
  grind

theorem Valid.mem_add_iff (h : self.Valid T) (hkeys : KeysDiffer T) (order : List τ) (text : τ)
    (a : Address) : a ∈ (self.call T (.add order text)).addresses.values ↔
      self.Adds T a (.add order text) ∨ a ∈ self.addresses.values := by
  rw [AddressData.call]
  cases hadd : (self.arrange order).add T text with
  | error e =>
    refine (or_iff_right ?_).symm
    rintro ⟨htext, -, hno⟩
    rw [(h.add_eq_ok_iff htext).2 ⟨hno, rfl⟩] at hadd
    cases hadd
  | ok r =>
    obtain ⟨hadds, hmem⟩ := h.mem_of_add hkeys hadd a
    refine hmem.trans (or_congr_left ⟨?_, ?_⟩)
    · rintro rfl
      exact hadds
    · rintro ⟨htext, hid, -⟩
      have heq := htext.symm.trans hadds.1
      simp only [Except.ok.injEq, Prod.mk.injEq] at heq
      exact Address.ext (hid.trans hadds.2.1.symm) heq.1 heq.2.1 heq.2.2

theorem Valid.mem_delete_iff (h : self.Valid T) (order : List τ) (id : Nat) (a : Address) :
    a ∈ (self.call T (.delete order id)).addresses.values ↔
      ¬self.Removes a (.delete order id) ∧ a ∈ self.addresses.values := by
  have hfind : (self.addresses.arrange order).values.find? (fun other => other.addressId = id) =
      ((self.addresses.arrange order).entries.find? fun entry => entry.2.addressId = id).map
        Sigma.snd := by
    rw [Dict.values, find?_map]
    rfl
  simp only [AddressData.call, delete, deleteId, arrange, Removes, hfind]
  cases hentry : (self.addresses.arrange order).entries.find? fun entry =>
      entry.2.addressId = id with
  | none => simp [mem_values_arrange]
  | some entry =>
    obtain ⟨k, found⟩ := entry
    have hk : self.addresses.lookup k = some found := by
      rw [← Dict.lookup_arrange, ← Dict.mem_entries]
      exact mem_of_find?_eq_some hentry
    have hown := fun k' => h.own k' a
    have hfound := (h.own k found hk).1
    simp only [Dict.mem_values, Dict.lookup_erase, Dict.lookup_arrange, Option.map_some]
    grind

theorem valid_run (calls : List (Call τ τ)) : (run T calls).Valid T :=
  foldlRecOn calls _ ⟨by rintro _ _ ⟨⟩, by rintro _ _ _ _ _ ⟨⟩⟩ fun _ h c _ => h.call c

end AddressData

/-- The addresses that are stored after the calls are those that were added and not removed since.
-/
theorem addressData_meets (calls : List (Call τ τ)) :
    (AddressData.run T calls).Meets T ∧
      (AddressData.KeysDiffer T → ∀ a, a ∈ (AddressData.run T calls).addresses.values ↔
        History.SinceAt (fun before c => (AddressData.run T before).Adds T a c)
          (fun before c => ¬(AddressData.run T before).Removes a c) calls) := by
  refine ⟨(AddressData.valid_run calls).meets, fun hkeys a => ?_⟩
  refine History.iff_sinceAt (R := fun calls => a ∈ (AddressData.run T calls).addresses.values)
    (by rintro ⟨⟩) (fun before c => ?_) calls
  have h : (AddressData.run T before).Valid T := AddressData.valid_run before
  rw [show AddressData.run T (before ++ [c]) = (AddressData.run T before).call T c by
    simp [AddressData.run]]
  cases c with
  | add order text => simpa [AddressData.Removes] using h.mem_add_iff hkeys order text a
  | delete order id => simpa [AddressData.Adds] using h.mem_delete_iff order id a

end BebaCtrl.RestRouter
