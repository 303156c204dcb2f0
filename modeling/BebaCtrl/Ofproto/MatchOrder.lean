import BebaCtrl.Lib.KeySort
import BebaCtrl.Ofproto.Match

/-!
# The order of keyword arguments

A match is built from a dictionary, which lists its keywords in any order. The fields are sorted by
their numbers before they are written. An experimenter field has a pair of numbers, and only the
experimenter id is taken for the sort, so two fields of one experimenter are written in the order in
which the dictionary lists them (`orderIndependent_iff`).
-/

namespace BebaCtrl.OFPMatch

open List

section Order

variable {conv : Addrconv} {kwargs : List (OxmName × UserValue)}

/-- The buffer after `OFPMatch(**kwargs).serialize(buf, offset)`. -/
def matchBytes (conv : Addrconv) (kwargs : List (OxmName × UserValue)) (buf : Bytes)
    (offset : Nat) : PyResult Bytes := do
  let m ← ofKwargs conv kwargs
  let (buf, _, _) ← m.serialize conv buf offset
  return buf

/-- All orders of the arguments give the same bytes. -/
def OrderIndependent (conv : Addrconv) (kwargs : List (OxmName × UserValue)) : Prop :=
  ∀ kwargs₁ kwargs₂ : List (OxmName × UserValue), kwargs₁.Perm kwargs → kwargs₂.Perm kwargs →
    ∀ buf offset bytes, matchBytes conv kwargs₁ buf offset = .ok bytes →
      matchBytes conv kwargs₂ buf offset = .ok bytes

/-- The experimenter of a field of the table. -/
def experimenterOf : OxmName → Option Nat
  | .named s => (nameToField s).bind fun f => f.exp.map (·.1)
  | .field _ => none

/-- Valid arguments give the bytes of their sorted fields. -/
theorem matchBytes_eq (hnodup : (kwargs.map (·.1)).Nodup) (h : ∀ kw ∈ kwargs, KwargOk conv kw)
    (buf : Bytes) (offset : Nat) :
    matchBytes conv kwargs buf offset =
      .ok (splice buf offset (wire (sortedTriples conv kwargs))) := by
  obtain ⟨fields2, hm, -, hfrom⟩ := ofKwargs_ok h
  have hgood := good_of_mem_sortedTriples h
  have hlen := wireLen_lt hgood (nodup_nums_sortedTriples hnodup h)
  have hser : serialize conv ⟨ofpmtOxm, none, [], fields2⟩ buf offset = _ :=
    serialize_good hfrom hgood hlen buf offset
  simp [matchBytes, hm, hser]

/-- The fields can be read off the bytes of a match. -/
theorem wire_inj (conv : Addrconv) {ts ts' : List OxmTriple} (h : ∀ t ∈ ts, Good t)
    (h' : ∀ t ∈ ts', Good t) (hlen : wireLen ts < 65536) (hlen' : wireLen ts' < 65536)
    (heq : wire ts = wire ts') : ts = ts' := by
  obtain ⟨fields2, hto, hfrom⟩ := exists_pairs conv h
  obtain ⟨fields2', hto', hfrom'⟩ := exists_pairs conv h'
  obtain ⟨fields, hparse⟩ := parser_wire h hlen hto (show At (wire ts) 0 (wire ts) from prefix_rfl)
  obtain ⟨fields', hparse'⟩ := parser_wire h' hlen' hto'
    (show At (wire ts') 0 (wire ts') from prefix_rfl)
  rw [heq] at hparse
  have hsame := hparse.unique hparse'
  simp only [Except.ok.injEq, OFPMatch.mk.injEq] at hsame
  rw [hsame.2.2.2] at hfrom
  exact Except.ok.inj (hfrom.symm.trans hfrom')

/-! ## Keys of the sort -/

/-- Two fields of the table have the same key when they belong to one experimenter. -/
theorem sortKey_eq_iff : ∀ f ∈ oxmTypes, ∀ g ∈ oxmTypes, f.name ≠ g.name →
    (f.num.sortKey = g.num.sortKey ↔ ∃ e, f.exp.map (·.1) = some e ∧ g.exp.map (·.1) = some e) := by
  have h : ∀ f ∈ oxmTypes, ∀ g ∈ oxmTypes, f.name ≠ g.name →
      (f.num.sortKey = g.num.sortKey ↔
        (f.exp.map (·.1)).isSome ∧ f.exp.map (·.1) = g.exp.map (·.1)) := by
    decide +kernel
  intro f hf g hg hne
  rw [h f hf g hg hne, Option.isSome_iff_exists]
  constructor
  · rintro ⟨⟨e, he⟩, heq⟩
    exact ⟨e, he, heq ▸ he⟩
  · rintro ⟨e, he, he'⟩
    exact ⟨⟨e, he⟩, he.trans he'.symm⟩

/-- The key under which the field of an argument is sorted. -/
def kwargKey (conv : Addrconv) (kw : OxmName × UserValue) : Nat := (tripleOf conv kw).1.sortKey

theorem KwargOk.entry {kw : OxmName × UserValue} (h : KwargOk conv kw) :
    ∃ f ∈ oxmTypes, kw.1 = .named f.name ∧ kwargKey conv kw = f.num.sortKey ∧
      experimenterOf kw.1 = f.exp.map (·.1) := by
  obtain ⟨-, -, -, ⟨f, hf, hnum, -⟩, hname⟩ := h.resolve
  obtain ⟨size, he⟩ := entry_of_mem f hf
  rw [hnum] at hname
  have hkw : kw.1 = .named f.name := by
    rw [← hname, nameOf, he.byNum]
  refine ⟨f, hf, hkw, by rw [kwargKey, hnum], ?_⟩
  rw [hkw, experimenterOf, he.byName]
  rfl

theorem kwargKey_eq_iff {kw kw' : OxmName × UserValue} (h : KwargOk conv kw) (h' : KwargOk conv kw')
    (hne : kw.1 ≠ kw'.1) :
    kwargKey conv kw = kwargKey conv kw' ↔
      ∃ e, experimenterOf kw.1 = some e ∧ experimenterOf kw'.1 = some e := by
  obtain ⟨f, hf, hname, hkey, hexp⟩ := h.entry
  obtain ⟨g, hg, hname', hkey', hexp'⟩ := h'.entry
  rw [hkey, hkey', hexp, hexp']
  refine sortKey_eq_iff f hf g hg fun heq => hne ?_
  rw [hname, hname', heq]

/-- No two of the fields belong to one experimenter. -/
def ExperimentersDistinct (kwargs : List (OxmName × UserValue)) : Prop :=
  ∀ kw ∈ kwargs, ∀ kw' ∈ kwargs, kw.1 ≠ kw'.1 →
    ¬∃ e, experimenterOf kw.1 = some e ∧ experimenterOf kw'.1 = some e

theorem nodup_kwargKey_iff (hnodup : (kwargs.map (·.1)).Nodup)
    (h : ∀ kw ∈ kwargs, KwargOk conv kw) :
    (kwargs.map (kwargKey conv)).Nodup ↔ ExperimentersDistinct kwargs := by
  rw [nodup_map_iff_inj_on (List.Nodup.of_map _ hnodup)]
  constructor
  · intro hinj kw hkw kw' hkw' hne hexp
    have heq := hinj kw hkw kw' hkw' ((kwargKey_eq_iff (h kw hkw) (h kw' hkw') hne).2 hexp)
    exact hne (congrArg Prod.fst heq)
  · intro hdistinct kw hkw kw' hkw' hkey
    by_contra hne
    have hname : kw.1 ≠ kw'.1 := fun heq => hne (inj_on_of_nodup_map hnodup hkw hkw' heq)
    exact hdistinct kw hkw kw' hkw' hname
      ((kwargKey_eq_iff (h kw hkw) (h kw' hkw') hname).1 hkey)

/-! ## Orders -/

/-- Arguments that are converted come from values that can be converted. -/
theorem kwargOk_of_resolve {f : OxmField} (hf : f ∈ oxmTypes) {uv : UserValue} {t : OxmTriple}
    (h : resolve conv (.named f.name, uv) = .ok t) : KwargOk conv (.named f.name, uv) := by
  obtain ⟨size, he⟩ := entry_of_mem f hf
  have hfrom : ∃ t, oxmFromUser conv (.named f.name) uv = .ok t := by
    cases hfrom : oxmFromUser conv (.named f.name) uv with
    | ok t => exact ⟨t, rfl⟩
    | error e => simp [resolve, oxmNormalizeUser, hfrom] at h
  obtain ⟨t, hfrom⟩ := hfrom
  rw [he.oxmFromUser_eq] at hfrom
  obtain ⟨value, hvalue, hfrom⟩ := bind_eq_ok.1 hfrom
  refine ⟨f, hf, rfl, ⟨value, hvalue⟩, fun m hm => ?_⟩
  rw [hm] at hfrom
  obtain ⟨mask, hmask, -⟩ := bind_eq_ok.1 hfrom
  exact ⟨mask, hmask⟩

theorem kwargOk_of_matchBytes (hnames : ∀ kw ∈ kwargs, ∃ f ∈ oxmTypes, kw.1 = .named f.name)
    {buf bytes : Bytes} {offset : Nat} (h : matchBytes conv kwargs buf offset = .ok bytes) :
    ∀ kw ∈ kwargs, KwargOk conv kw := by
  obtain ⟨m, hm, -⟩ := bind_eq_ok.1 h
  obtain ⟨norm, hnorm, hm⟩ := bind_eq_ok.1 hm
  obtain ⟨fields, hfields, -⟩ := bind_eq_ok.1 hm
  intro kw hkw
  obtain ⟨kw', hkw', hnorm⟩ := exists_of_mapM hnorm hkw
  obtain ⟨t, -, hfrom⟩ := exists_of_mapM hfields hkw'
  obtain ⟨f, hf, hname⟩ := hnames kw hkw
  obtain ⟨name, uv⟩ := kw
  cases hname
  exact kwargOk_of_resolve hf (bind_eq_ok.2 ⟨kw', hnorm, hfrom⟩)

/-- Two arguments with the same key, listed in the two orders. -/
theorem matchBytes_swap_ne {kw kw' : OxmName × UserValue}
    (hnodup : ((kw :: kw' :: kwargs).map (·.1)).Nodup)
    (h : ∀ k ∈ kw :: kw' :: kwargs, KwargOk conv k) (hkey : kwargKey conv kw = kwargKey conv kw') :
    matchBytes conv (kw :: kw' :: kwargs) [] 0 ≠ matchBytes conv (kw' :: kw :: kwargs) [] 0 := by
  have hswap : (kw' :: kw :: kwargs).Perm (kw :: kw' :: kwargs) := List.Perm.swap ..
  have hnodup' : ((kw' :: kw :: kwargs).map (·.1)).Nodup := (hswap.map _).nodup_iff.2 hnodup
  have h' : ∀ k ∈ kw' :: kw :: kwargs, KwargOk conv k := fun k hk => h k (hswap.mem_iff.1 hk)
  rw [matchBytes_eq hnodup h, matchBytes_eq hnodup' h']
  intro heq
  have hgood := good_of_mem_sortedTriples h
  have hgood' := good_of_mem_sortedTriples h'
  have hwire := wire_inj conv hgood hgood'
    (wireLen_lt hgood (nodup_nums_sortedTriples hnodup h))
    (wireLen_lt hgood' (nodup_nums_sortedTriples hnodup' h'))
    (by simpa [splice_of_le] using heq)
  exact mergeSort_swap_ne (List.Nodup.of_map _ (nodup_nums hnodup h)) hkey hwire

/-- The bytes of a match do not depend on the order of its arguments exactly when no two of its
fields belong to one experimenter, or when there are no bytes because a value cannot be converted.
-/
theorem orderIndependent_iff (conv : Addrconv) (kwargs : List (OxmName × UserValue))
    (hnodup : (kwargs.map (·.1)).Nodup)
    (hnames : ∀ kw ∈ kwargs, ∃ f ∈ oxmTypes, kw.1 = .named f.name) :
    OrderIndependent conv kwargs ↔
      ((∀ kw ∈ kwargs, KwargOk conv kw) → ExperimentersDistinct kwargs) := by
  constructor
  · intro hindep hok
    rw [← nodup_kwargKey_iff hnodup hok]
    by_contra hkeys
    obtain ⟨kw, kw', rest, hperm, hkey⟩ :=
      exists_perm_of_not_nodup_map (List.Nodup.of_map _ hnodup) hkeys
    have hnodup' := (hperm.map (·.1)).nodup_iff.2 hnodup
    have hok' : ∀ k ∈ kw :: kw' :: rest, KwargOk conv k := fun k hk => hok k (hperm.mem_iff.1 hk)
    have hbytes := matchBytes_eq hnodup' hok' [] 0
    have hswap := hindep _ (kw' :: kw :: rest) hperm ((List.Perm.swap ..).trans hperm) _ _ _ hbytes
    exact matchBytes_swap_ne hnodup' hok' hkey (hbytes.trans hswap.symm)
  · intro hdistinct kwargs₁ kwargs₂ hperm₁ hperm₂ buf offset bytes hbytes
    have hok₁ := kwargOk_of_matchBytes (fun kw hkw => hnames kw (hperm₁.mem_iff.1 hkw)) hbytes
    have hok : ∀ kw ∈ kwargs, KwargOk conv kw := fun kw hkw => hok₁ kw (hperm₁.mem_iff.2 hkw)
    have hok₂ : ∀ kw ∈ kwargs₂, KwargOk conv kw := fun kw hkw => hok kw (hperm₂.mem_iff.1 hkw)
    have hkeys := (nodup_kwargKey_iff hnodup hok).2 (hdistinct hok)
    have hsorted : sortedTriples conv kwargs₁ = sortedTriples conv kwargs₂ := by
      refine mergeSort_eq_of_perm (((hperm₁.trans hperm₂.symm).map _)) ?_
      rw [map_map]
      exact (hperm₁.map _).nodup_iff.2 hkeys
    have hnodup₁ := (hperm₁.map (·.1)).nodup_iff.2 hnodup
    have hnodup₂ := (hperm₂.map (·.1)).nodup_iff.2 hnodup
    rw [matchBytes_eq hnodup₂ hok₂, ← hsorted, ← matchBytes_eq hnodup₁ hok₁]
    exact hbytes

end Order

/-- A match on the Ethernet type and the Beba state. -/
theorem orderIndependent_ethType_state :
    OrderIndependent latin1Addrconv
      [(.named "eth_type", .int 0x800, none), (.named "state", .int 5, none)] := by
  refine (orderIndependent_iff _ _ (by decide) ?_).2 fun _ => ?_
  · intro kw hkw
    rcases mem_pair.1 hkw with rfl | rfl
    · exact ⟨.openFlowBasic "eth_type" 5 (.int 2), by decide, rfl⟩
    · exact ⟨.bebaExperimenter "state" 1 (.int 4), by decide, rfl⟩
  · rintro kw hkw kw' hkw' hne ⟨e, he, he'⟩
    rcases mem_pair.1 hkw with rfl | rfl
    · cases he
    · rcases mem_pair.1 hkw' with rfl | rfl
      · cases he'
      · exact hne rfl

/-- A match on the two Beba fields depends on the order in which they are listed. -/
theorem not_orderIndependent_state_globalState :
    ¬OrderIndependent latin1Addrconv
      [(.named "state", .int 5, none), (.named "global_state", .int 3, none)] := by
  intro hindep
  have hstate : KwargOk latin1Addrconv (.named "state", .int 5, none) :=
    ⟨.bebaExperimenter "state" 1 (.int 4), by decide, rfl, ⟨_, rfl⟩, fun m hm => by cases hm⟩
  have hglobal : KwargOk latin1Addrconv (.named "global_state", .int 3, none) :=
    ⟨.bebaExperimenter "global_state" 0 (.int 4), by decide, rfl, ⟨_, rfl⟩, fun m hm => by cases hm⟩
  have hok : ∀ k ∈ [(OxmName.named "state", UserVal.int 5, (none : Option UserVal)),
      (.named "global_state", .int 3, none)], KwargOk latin1Addrconv k := by
    intro k hk
    rcases mem_pair.1 hk with rfl | rfl
    · exact hstate
    · exact hglobal
  have hkey := (kwargKey_eq_iff hstate hglobal (by decide)).2 ⟨bebaExperimenterId, rfl, rfl⟩
  have hbytes := matchBytes_eq (by decide) hok [] 0
  have hswap := hindep _ _ (List.Perm.refl _) (List.Perm.swap ..) _ _ _ hbytes
  exact matchBytes_swap_ne (by decide) hok hkey (hbytes.trans hswap.symm)

end BebaCtrl.OFPMatch
