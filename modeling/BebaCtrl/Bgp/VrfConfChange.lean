import BebaCtrl.Bgp.VrfImport

/-!
# Changes of the configuration of a VRF

`VrfConf.update` notes what has changed, and the handler of that event re-installs the local paths
of the VRF if they are to be exported anew, withdraws the known paths that have none of the import
route targets, applies the import maps and imports paths from the VPN table. What it queues is
processed later.

The paths of one destination are those of `VrfImport` with their source, which no comparison of
paths looks at: that of a local path is `None`. Local paths are made with attributes of their own,
so that the export of an earlier path for a prefix is not the one that is known. A destination
without pending paths is left as it is when it is processed, so that the queue itself makes no
difference here.

In every run of a VRF table whose batches have at most one path of each `puid`, the known paths have
different ones (`wellFormed_run`), and a change keeps the local paths if each of them is `Spared`.
-/

namespace BebaCtrl.Bgp.VrfConfChange

open Keyed VrfImport List

/-! ## Configuration -/

structure Settings where
  importRts : List RouteTarget
  /-- AS numbers and numbers of the route targets and sites of origin -/
  exportRts : List (Nat × Nat)
  sooList : List (Nat × Nat)
  multiExitDisc : Option Nat
  /-- the names of the import maps -/
  importMaps : List String
  deriving DecidableEq, Repr

/-- The value of a `VRF_CHG_EVT`. -/
structure ChangeEvent where
  newImpRts : Option (List RouteTarget)
  removedImpRts : Option (List RouteTarget)
  importMaps : List String
  reExport : Bool
  reImport : Bool
  deriving DecidableEq, Repr

/-- The symmetric difference is not empty. -/
def Differ {α : Type} (new old : List α) : Prop := (∃ x ∈ new, x ∉ old) ∨ ∃ x ∈ old, x ∉ new

instance {α : Type} [DecidableEq α] (new old : List α) : Decidable (Differ new old) :=
  inferInstanceAs (Decidable (_ ∨ _))

/-- `VrfConf.update`: the settings afterwards, and the event if there is one. -/
def Settings.update (old new : Settings) : Settings × Option ChangeEvent :=
  let importRtsChanged := Differ new.importRts old.importRts
  let newImpRts :=
    if importRtsChanged then some (new.importRts.filter (· ∉ old.importRts)) else none
  let oldImpRts :=
    if importRtsChanged then some (old.importRts.filter (· ∉ new.importRts)) else none
  let reExportNeeded := Differ new.exportRts old.exportRts ∨ Differ new.sooList old.sooList ∨
    new.multiExitDisc ≠ old.multiExitDisc
  let reImportNeeded := Differ new.importMaps old.importMaps
  ({ importRts := if importRtsChanged then new.importRts else old.importRts
     exportRts := if Differ new.exportRts old.exportRts then new.exportRts else old.exportRts
     sooList := if Differ new.sooList old.sooList then new.sooList else old.sooList
     multiExitDisc := new.multiExitDisc
     importMaps := if reImportNeeded then new.importMaps else old.importMaps },
    if importRtsChanged ∨ reExportNeeded ∨ reImportNeeded then
      some ⟨newImpRts, oldImpRts, new.importMaps, reExportNeeded, reImportNeeded⟩
    else none)

/-! ## Paths and destinations -/

structure TablePath extends VrfPath where
  source : Option VrfSource
  deriving DecidableEq, Repr

/-- `VrfRtImportMap`. A map of the other kind, for a prefix, cannot be made: the class of the prefix
takes a length and an address. -/
structure ImportMap where
  rt : RouteTarget
  deriving DecidableEq, Repr

def getRts (path : VrfPath) : List RouteTarget := routeTargets path.pathattrMap

/-- The default route target counts as one of every path. -/
def HasRtsIn (path : VrfPath) (interestedRts : List RouteTarget) : Prop :=
  ∃ rt ∈ interestedRts, rt ∈ getRts path ++ [defaultRt]

instance (path : VrfPath) (interestedRts : List RouteTarget) :
    Decidable (HasRtsIn path interestedRts) :=
  inferInstanceAs (Decidable (∃ rt ∈ interestedRts, _))

def ImportMap.Matches (map : ImportMap) (path : VrfPath) : Prop := map.rt ∈ getRts path

instance (path : VrfPath) (map : ImportMap) : Decidable (map.Matches path) :=
  inferInstanceAs (Decidable (_ ∈ _))

/-- `clone(for_withdrawal=True)` -/
def TablePath.withdrawal (path : TablePath) : TablePath := { path with pathattrMap := [] }

structure Dest where
  knownPathList : List TablePath := []
  newPathList : List TablePath := []
  withdrawList : List TablePath := []
  deriving DecidableEq, Repr

namespace Dest

def puid (path : TablePath) : Puid := path.toVrfPath.puid

/-- `list.remove`, which compares with `VrfPath.__eq__`. -/
def remove (paths : List TablePath) (path : TablePath) : List TablePath :=
  paths.eraseP fun p => p.toVrfPath = path.toVrfPath

/-- `known.remove` for each match; a path that is not there any more raises. -/
def removeMatches (known : List TablePath) : List TablePath → PyResult Unit × List TablePath
  | [] => (.ok (), known)
  | path :: rest =>
    if ∃ p ∈ known, p.toVrfPath = path.toVrfPath then removeMatches (remove known path) rest
    else (.error .valueError, known)

def removeWithdrawals (dest : Dest) : PyResult Unit × Dest :=
  if dest.withdrawList = [] then (.ok (), dest)
  else if dest.knownPathList = [] then (.ok (), { dest with withdrawList := [] })
  else
    let matched := dest.withdrawList.filterMap (findMatch puid dest.knownPathList)
    let wMatched := dest.withdrawList.filter fun withdraw =>
      (findMatch puid dest.knownPathList withdraw).isSome
    match removeMatches dest.knownPathList matched with
    | (.error e, known) => (.error e, { dest with knownPathList := known })
    | (.ok _, known) => (.ok (), { dest with
        knownPathList := known
        withdrawList := wMatched.foldl remove dest.withdrawList })

/-- `_process_paths` up to the choice of the best path, which leaves the lists alone. -/
def processPaths (dest : Dest) : PyResult Unit × Dest :=
  match removeWithdrawals dest with
  | (.error e, dest) => (.error e, dest)
  | (.ok _, dest) => (.ok (), { dest with
      knownPathList := removeOld puid dest.knownPathList dest.newPathList ++ dest.newPathList
      newPathList := [] })

def withdrawUnintrestingPaths (interestedRts : List RouteTarget) (dest : Dest) : Dest :=
  { dest with
    withdrawList := dest.withdrawList ++
      (dest.knownPathList.filter fun path => ¬HasRtsIn path.toVrfPath interestedRts).map
        TablePath.withdrawal }

/-- A path is withdrawn once for every map that matches it. -/
def applyImportMaps (maps : List ImportMap) (dest : Dest) : Dest :=
  { dest with
    withdrawList := dest.withdrawList ++ maps.flatMap fun map =>
      (dest.knownPathList.filter fun path => map.Matches path.toVrfPath).map TablePath.withdrawal }

end Dest

/-! ## Processing -/

variable {path : TablePath}

namespace Dest

/-- Each known path has its own `puid`. -/
def Unique (known : List TablePath) : Prop := (known.map puid).Nodup

instance (known : List TablePath) : Decidable (Unique known) :=
  inferInstanceAs (Decidable (List.Nodup _))

variable {known : List TablePath}

theorem Unique.remove_eq (h : Unique known) (hmem : path ∈ known) :
    remove known path = known.filter fun p => puid p ≠ puid path := by
  induction known with
  | nil => cases hmem
  | cons p known ih =>
    obtain ⟨hnew, h⟩ := nodup_cons.1 (map_cons ▸ h : (puid p :: known.map puid).Nodup)
    have hne : ∀ q ∈ known, puid q ≠ puid p := fun q hq heq => hnew (heq ▸ mem_map_of_mem hq)
    rcases mem_cons.1 hmem with rfl | hmem
    · have hrest : (known.filter fun q => puid q ≠ puid path) = known :=
        filter_eq_self.2 fun q hq => by simpa using hne q hq
      simpa [remove] using hrest.symm
    · have hpath := hne path hmem
      have hdiff : p.toVrfPath ≠ path.toVrfPath := fun heq => hpath (congrArg VrfPath.puid heq).symm
      have htail := ih h hmem
      unfold remove at htail ⊢
      simp [hdiff, Ne.symm hpath, htail]

theorem Unique.filter (h : Unique known) (p : TablePath → Bool) : Unique (known.filter p) :=
  h.sublist (filter_sublist.map puid)

/-- Matched paths are removed if none is matched twice. -/
theorem removeMatches_eq_ok_iff {known matched known' : List TablePath} (h : Unique known)
    (hmatched : ∀ path ∈ matched, path ∈ known ∨ ∀ p ∈ known, puid p ≠ puid path) :
    removeMatches known matched = (.ok (), known') ↔ (matched.map puid).Nodup ∧
      (∀ path ∈ matched, path ∈ known) ∧
        known.filter (fun p => puid p ∉ matched.map puid) = known' := by
  induction matched generalizing known with
  | nil => simp [removeMatches]
  | cons path matched ih =>
    rw [forall_mem_cons] at hmatched
    unfold removeMatches
    rcases hmatched.1 with hmem | habsent
    · have hrest : ∀ q ∈ matched, (q ∈ known.filter fun p => puid p ≠ puid path) ∨
          ∀ p ∈ known.filter (fun p => puid p ≠ puid path), puid p ≠ puid q := by
        intro q hq
        have := hmatched.2 q hq
        grind
      rw [if_pos ⟨path, hmem, rfl⟩, h.remove_eq hmem, ih (h.filter _) hrest, filter_filter]
      simp only [map_cons, nodup_cons, mem_filter, mem_map, mem_cons]
      grind
    · have hno : ¬∃ p ∈ known, p.toVrfPath = path.toVrfPath := by
        rintro ⟨p, hp, heq⟩
        exact habsent p hp (congrArg VrfPath.puid heq)
      rw [if_neg hno]
      refine iff_of_false (by simp) ?_
      rintro ⟨-, hall, -⟩
      exact habsent path (hall path (by simp)) rfl

/-- How often a known path is among the withdrawals of some known paths. -/
theorem Unique.count_withdrawals (h : Unique known) (hmem : path ∈ known) (p : TablePath → Prop)
    [DecidablePred p] :
    (((known.filter fun q => p q).map TablePath.withdrawal).map puid).count (puid path) =
      if p path then 1 else 0 := by
  have hmap : ((known.filter fun q => p q).map TablePath.withdrawal).map puid =
      (known.filter fun q => p q).map puid := by
    rw [map_map]
    rfl
  have hin : puid path ∈ (known.filter fun q => p q).map puid ↔ p path := by
    constructor
    · intro hin
      obtain ⟨q, hq, hpuid⟩ := mem_map.1 hin
      obtain ⟨hq, hp⟩ := mem_filter.1 hq
      obtain rfl := inj_on_of_nodup_map h hq hmem hpuid
      simpa using hp
    · intro hp
      exact mem_map_of_mem (mem_filter.2 ⟨hmem, by simpa using hp⟩)
  rw [hmap]
  split
  · rename_i hp
    exact count_eq_one_of_mem (h.filter _) (hin.2 hp)
  · rename_i hp
    exact count_eq_zero_of_not_mem fun h => hp (hin.1 h)

theorem Unique.count_mapped (h : Unique known) (hmem : path ∈ known) (maps : List ImportMap) :
    ((maps.flatMap fun map => (known.filter fun q => map.Matches q.toVrfPath).map
      TablePath.withdrawal).map puid).count (puid path) =
      maps.countP fun map => map.Matches path.toVrfPath := by
  induction maps with
  | nil => rfl
  | cons map maps ih =>
    rw [flatMap_cons, map_append, count_append, ih,
      h.count_withdrawals hmem fun q => map.Matches q.toVrfPath, countP_cons]
    simp [Nat.add_comm]

/-- The known paths that withdrawals are for. -/
theorem map_puid_matched (known withdrawals : List TablePath) :
    (withdrawals.filterMap (findMatch puid known)).map puid =
      (withdrawals.map puid).filter fun u => u ∈ known.map puid := by
  induction withdrawals with
  | nil => rfl
  | cons w withdrawals ih =>
    rw [filterMap_cons]
    cases hm : findMatch puid known w with
    | none =>
      have habsent : puid w ∉ known.map puid := by
        rw [findMatch, find?_eq_none] at hm
        simpa using hm
      rw [map_cons, filter_cons_of_neg (by simpa using habsent), ih]
    | some path =>
      obtain ⟨hmem, hpuid⟩ := mem_of_findMatch hm
      have hpresent : puid w ∈ known.map puid := hpuid ▸ mem_map_of_mem hmem
      rw [map_cons, map_cons, filter_cons_of_pos (by simpa using hpresent), ← ih, hpuid]

variable {dest : Dest}

/-- Processing a destination with known paths, by what removing the withdrawn ones leaves. -/
theorem exists_processPaths_iff (hne : dest.knownPathList ≠ []) (P : List TablePath → Prop) :
    (∃ dest', dest.processPaths = (.ok (), dest') ∧ P dest'.knownPathList) ↔
      ∃ known, removeMatches dest.knownPathList
          (dest.withdrawList.filterMap (findMatch puid dest.knownPathList)) = (.ok (), known) ∧
        P (removeOld puid known dest.newPathList ++ dest.newPathList) := by
  unfold processPaths removeWithdrawals
  by_cases hw : dest.withdrawList = []
  · simp [hw, removeMatches]
  · rw [if_neg hw, if_neg hne]
    rcases hm : removeMatches dest.knownPathList
      (dest.withdrawList.filterMap (findMatch puid dest.knownPathList)) with ⟨e | u, known⟩
    · simp [hm]
    · simp [hm]

/-- When a destination has a local path after processing. -/
theorem processPaths_local_iff (h : Unique dest.knownPathList) (hmem : path ∈ dest.knownPathList)
    (hlocal : ∀ p ∈ dest.knownPathList, p.source = none ↔ p = path) :
    (∃ dest', dest.processPaths = (.ok (), dest') ∧ ∃ p ∈ dest'.knownPathList, p.source = none) ↔
      (∀ p ∈ dest.knownPathList, (dest.withdrawList.map puid).count (puid p) ≤ 1) ∧
      ((∃ p ∈ dest.newPathList, p.source = none) ∨
        puid path ∉ dest.withdrawList.map puid ∧ puid path ∉ dest.newPathList.map puid) := by
  rw [exists_processPaths_iff (ne_nil_of_mem hmem) fun known => ∃ p ∈ known, p.source = none]
  have hpuids := map_puid_matched dest.knownPathList dest.withdrawList
  have hall : ∀ q ∈ dest.withdrawList.filterMap (findMatch puid dest.knownPathList),
      q ∈ dest.knownPathList := by
    intro q hq
    obtain ⟨w, -, hm⟩ := mem_filterMap.1 hq
    exact (mem_of_findMatch hm).1
  have honce :
      ((dest.withdrawList.map puid).filter fun u => u ∈ dest.knownPathList.map puid).Nodup ↔
      ∀ p ∈ dest.knownPathList, (dest.withdrawList.map puid).count (puid p) ≤ 1 := by
    rw [nodup_iff_count_le_one, ← forall_mem_map (P := fun u => count u _ ≤ 1)]
    refine forall_congr' fun u => ?_
    by_cases hu : u ∈ dest.knownPathList.map puid
    · rw [count_filter (by simpa using hu), forall_prop_of_true hu]
    · rw [count_eq_zero_of_not_mem fun hin => hu (by simpa using (mem_filter.1 hin).2)]
      simp [hu]
  have hrest : ∀ p, p ∈ removeOld puid
      (dest.knownPathList.filter fun p => puid p ∉ dest.withdrawList.map puid) dest.newPathList ↔
        p ∈ dest.knownPathList ∧ puid p ∉ dest.withdrawList.map puid ∧
          puid p ∉ dest.newPathList.map puid := by
    intro p
    rw [mem_removeOld_iff (h.filter _), mem_filter, decide_eq_true_eq, and_assoc]
  have hkept : (dest.knownPathList.filter fun p => puid p ∉ (dest.withdrawList.map puid).filter
      fun u => u ∈ dest.knownPathList.map puid) =
      dest.knownPathList.filter fun p => puid p ∉ dest.withdrawList.map puid := by
    refine filter_congr fun p hp => ?_
    have hin : puid p ∈ dest.knownPathList.map puid := mem_map_of_mem hp
    simp only [mem_filter, decide_eq_true hin, and_true]
  simp only [removeMatches_eq_ok_iff h fun q hq => .inl (hall q hq), hpuids, hkept, honce,
    and_iff_right hall, and_assoc, exists_and_left, exists_eq_left', mem_append, hrest]
  refine and_congr_right fun _ => ?_
  constructor
  · rintro ⟨p, ⟨hp, hkeep, hnew⟩ | hp, hsource⟩
    · obtain rfl := (hlocal p hp).1 hsource
      exact .inr ⟨hkeep, hnew⟩
    · exact .inl ⟨p, hp, hsource⟩
  · rintro (⟨p, hp, hsource⟩ | ⟨hkeep, hnew⟩)
    · exact ⟨p, .inr hp, hsource⟩
    · exact ⟨path, .inl ⟨hmem, hkeep, hnew⟩, (hlocal path hmem).2 rfl⟩

end Dest

/-! ## Tables -/

structure VrfTable where
  routeDist : RouteDist
  ipv6 : Bool
  settings : Settings
  importMaps : List ImportMap
  dests : IpPrefix → Dest

/-- The values of the attributes of a local path. -/
def Settings.localValues (settings : Settings) : List AttrValue :=
  [.origin 2, .asPath [],
    .extendedCommunities (settings.exportRts.map (fun rt => .twoOctetAs 0 2 rt.1 rt.2) ++
      settings.sooList.map fun soo => .twoOctetAs 0 3 soo.1 soo.2)] ++
    match settings.multiExitDisc with
    | some (med + 1) => [.multiExitDisc (med + 1)]
    | _ => []

section Handler

variable (labelOf : Bytes → Nat) (madeFor : IpPrefix → Nat) (mapByName : String → Option ImportMap)
  (vpnPaths : List VpnPath)

namespace VrfTable

/-- The path that `insert_vrf_path` makes. The next hop has had its label since its first path. -/
def localPath (table : VrfTable) (ipPrefix : IpPrefix) (nexthop : Bytes) : TablePath where
  puid := createPuid table.routeDist ipPrefix
  labelList := [labelOf nexthop]
  nexthop := nexthop
  pathattrMap := table.settings.localValues.map (.mk (madeFor ipPrefix))
  source := none

def reInstallNetCtrlPaths (table : VrfTable) : VrfTable :=
  { table with
    dests := fun ipPrefix =>
      let dest := table.dests ipPrefix
      { dest with
        newPathList := dest.newPathList ++
          (dest.knownPathList.filter fun path => path.source = none).map fun path =>
            table.localPath labelOf madeFor ipPrefix path.nexthop } }

def cleanUninterestingPaths (table : VrfTable) : VrfTable :=
  { table with
    dests := fun ipPrefix =>
      (table.dests ipPrefix).withdrawUnintrestingPaths table.settings.importRts }

/-- The maps are looked up one after the other; those before an unknown name stay. -/
def initImportMaps : List String → PyResult Unit × List ImportMap
  | [] => (.ok (), [])
  | name :: names =>
    match mapByName name with
    | none => (.error .keyError, [])
    | some map => ((initImportMaps names).1, map :: (initImportMaps names).2)

/-- The path that is imported; that of another VRF has no source in the VPN table. -/
def ofVpnPath (path : VpnPath) : TablePath where
  toVrfPath := path.toVrf false
  source := some (match path.source with
    | none => .vrfTable
    | some peer => .peer peer)

/-- The path is not in the table yet, and no import map keeps it out. -/
def Imports (table : VrfTable) (path : VpnPath) : Prop :=
  (∀ p ∈ (table.dests path.ipPrefix).knownPathList, p.toVrfPath ≠ path.toVrf false) ∧
    ∀ map ∈ table.importMaps, ¬map.Matches (path.toVrf false)

instance (table : VrfTable) (path : VpnPath) : Decidable (table.Imports path) :=
  inferInstanceAs (Decidable (_ ∧ _))

def importVpnPath (table : VrfTable) (path : VpnPath) : VrfTable :=
  if table.Imports path then
    { table with
      dests := Function.update table.dests path.ipPrefix
        { table.dests path.ipPrefix with
          newPathList := (table.dests path.ipPrefix).newPathList ++ [ofVpnPath path] } }
  else table

/-- The best paths of the VPN table that have one of the route targets. -/
def importVpnPathsFromTable (importRts : List RouteTarget) (table : VrfTable) : VrfTable :=
  (vpnPaths.filter fun path => path.ipv6 = table.ipv6 ∧ ∃ rt ∈ importRts, rt ∈ path.getRts).foldl
    importVpnPath table

/-- The route targets of the paths that are imported after a change. -/
def rtsToImport (table : VrfTable) (event : ChangeEvent) : List RouteTarget :=
  if event.reImport then table.settings.importRts
  else event.newImpRts.getD table.settings.importRts

/-- `ConfigurationManager.on_chg_vrf_conf`. The links from route targets to tables and the route
targets that are announced to peers are not looked at. -/
def onChgVrfConf (event : ChangeEvent) (table : VrfTable) : PyResult Unit × VrfTable :=
  let table := if event.reExport then table.reInstallNetCtrlPaths labelOf madeFor else table
  let table := table.cleanUninterestingPaths
  match initImportMaps mapByName event.importMaps with
  | (.error e, maps) => (.error e, { table with importMaps := maps })
  | (.ok _, maps) =>
    let table := { table with
      importMaps := maps, dests := fun ipPrefix => (table.dests ipPrefix).applyImportMaps maps }
    (.ok (), table.importVpnPathsFromTable vpnPaths (table.rtsToImport event))

end VrfTable

/-! ## What the handler leaves for a destination -/

namespace VrfTable

/-- The maps that are applied: none if a name is unknown. -/
def appliedMaps (event : ChangeEvent) : List ImportMap :=
  match initImportMaps mapByName event.importMaps with
  | (.error _, _) => []
  | (.ok _, maps) => maps

/-- A VPN path is imported by the handler. -/
def Imported (event : ChangeEvent) (table : VrfTable) (path : VpnPath) : Prop :=
  (initImportMaps mapByName event.importMaps).1 = .ok () ∧ path.ipv6 = table.ipv6 ∧
    (∃ rt ∈ table.rtsToImport event, rt ∈ path.getRts) ∧
    (∀ p ∈ (table.dests path.ipPrefix).knownPathList, p.toVrfPath ≠ path.toVrf false) ∧
    ∀ map ∈ appliedMaps mapByName event, ¬map.Matches (path.toVrf false)

instance (event : ChangeEvent) (table : VrfTable) (path : VpnPath) :
    Decidable (table.Imported mapByName event path) :=
  inferInstanceAs (Decidable (_ ∧ _ ∧ _ ∧ _ ∧ _))

theorem dests_importVpnPath (table : VrfTable) (path : VpnPath) (ipPrefix : IpPrefix) :
    (table.importVpnPath path).dests ipPrefix =
      { table.dests ipPrefix with
        newPathList := (table.dests ipPrefix).newPathList ++
          if path.ipPrefix = ipPrefix ∧ table.Imports path then [ofVpnPath path] else [] } := by
  unfold importVpnPath
  by_cases himports : table.Imports path
  · by_cases hipPrefix : path.ipPrefix = ipPrefix
    · subst hipPrefix
      simp [himports]
    · simp [himports, hipPrefix, Function.update_of_ne (Ne.symm hipPrefix)]
  · simp [himports]

/-- An import changes neither the known paths nor the maps. -/
theorem imports_importVpnPath (table : VrfTable) (path path' : VpnPath) :
    (table.importVpnPath path).Imports path' ↔ table.Imports path' := by
  have hmaps : (table.importVpnPath path).importMaps = table.importMaps := by
    unfold importVpnPath
    split <;> rfl
  unfold Imports
  rw [dests_importVpnPath, hmaps]

theorem dests_importVpnPaths (table : VrfTable) (paths : List VpnPath) (ipPrefix : IpPrefix) :
    (paths.foldl importVpnPath table).dests ipPrefix =
      { table.dests ipPrefix with
        newPathList := (table.dests ipPrefix).newPathList ++
          (paths.filter fun path => path.ipPrefix = ipPrefix ∧ table.Imports path).map
            ofVpnPath } := by
  induction paths generalizing table with
  | nil => simp
  | cons path paths ih =>
    rw [foldl_cons, ih, dests_importVpnPath]
    simp only [imports_importVpnPath, append_assoc]
    by_cases h : path.ipPrefix = ipPrefix ∧ table.Imports path
    · simp [h]
    · simp [h]

/-- The table when the import maps are looked up. -/
def cleaned (event : ChangeEvent) (table : VrfTable) : VrfTable :=
  (if event.reExport then table.reInstallNetCtrlPaths labelOf madeFor else table)
    |>.cleanUninterestingPaths

section

variable (event : ChangeEvent) (table : VrfTable)

theorem dests_cleaned (ipPrefix : IpPrefix) : (table.cleaned labelOf madeFor event).dests ipPrefix =
      { knownPathList := (table.dests ipPrefix).knownPathList
        newPathList := (table.dests ipPrefix).newPathList ++
          if event.reExport then
            ((table.dests ipPrefix).knownPathList.filter fun path => path.source = none).map
              fun path =>
              table.localPath labelOf madeFor ipPrefix path.nexthop
          else []
        withdrawList := (table.dests ipPrefix).withdrawList ++
          ((table.dests ipPrefix).knownPathList.filter fun path =>
            ¬HasRtsIn path.toVrfPath table.settings.importRts).map TablePath.withdrawal } := by
  unfold cleaned
  cases event.reExport <;>
    simp [cleanUninterestingPaths, reInstallNetCtrlPaths, Dest.withdrawUnintrestingPaths]

theorem settings_cleaned : (table.cleaned labelOf madeFor event).settings = table.settings ∧
      (table.cleaned labelOf madeFor event).ipv6 = table.ipv6 := by
  unfold cleaned
  cases event.reExport <;> exact ⟨rfl, rfl⟩

/-- The lists of a destination when the handler is done. -/
theorem dests_onChgVrfConf (ipPrefix : IpPrefix) :
    (table.onChgVrfConf labelOf madeFor mapByName vpnPaths event).2.dests ipPrefix =
      { knownPathList := (table.dests ipPrefix).knownPathList
        newPathList := ((table.cleaned labelOf madeFor event).dests ipPrefix).newPathList ++
          (vpnPaths.filter fun path =>
            path.ipPrefix = ipPrefix ∧ table.Imported mapByName event path).map ofVpnPath
        withdrawList := ((table.cleaned labelOf madeFor event).dests ipPrefix).withdrawList ++
          (appliedMaps mapByName event).flatMap fun map =>
            ((table.dests ipPrefix).knownPathList.filter fun path =>
              map.Matches path.toVrfPath).map TablePath.withdrawal } := by
  obtain ⟨hsettings, hipv6⟩ := settings_cleaned labelOf madeFor event table
  have hknown : ∀ q, ((table.cleaned labelOf madeFor event).dests q).knownPathList =
      (table.dests q).knownPathList := by
    intro q
    rw [dests_cleaned]
  have hhandler : table.onChgVrfConf labelOf madeFor mapByName vpnPaths event =
      match initImportMaps mapByName event.importMaps with
      | (.error e, maps) =>
          (.error e, { table.cleaned labelOf madeFor event with importMaps := maps })
      | (.ok _, maps) => (.ok (), importVpnPathsFromTable vpnPaths (table.rtsToImport event)
          { table.cleaned labelOf madeFor event with
            importMaps := maps
            dests := fun q =>
              ((table.cleaned labelOf madeFor event).dests q).applyImportMaps maps }) := by
    simp only [onChgVrfConf, rtsToImport, ← hsettings]
    rfl
  rw [hhandler]
  rcases hinit : initImportMaps mapByName event.importMaps with ⟨e | u, maps⟩
  · have happlied : appliedMaps mapByName event = [] := by
      unfold appliedMaps
      rw [hinit]
    have hnone : ∀ path, ¬table.Imported mapByName event path := by
      rintro path ⟨hok, -⟩
      rw [hinit] at hok
      cases hok
    simp [happlied, hnone, ← hknown]
  · have happlied : appliedMaps mapByName event = maps := by
      unfold appliedMaps
      rw [hinit]
    simp only [importVpnPathsFromTable, dests_importVpnPaths, Dest.applyImportMaps, hknown,
      filter_filter, hipv6, happlied]
    simp only [Imported, Imports, hinit, happlied]
    grind

end

/-! ## Local paths -/

/-- Known paths have their own `puid`, and that of a local path is made of the route distinguisher
of the VRF. -/
structure WellFormed (table : VrfTable) : Prop where
  unique : ∀ ipPrefix, Dest.Unique (table.dests ipPrefix).knownPathList
  localPuid : ∀ ipPrefix, ∀ path ∈ (table.dests ipPrefix).knownPathList ++
    (table.dests ipPrefix).newPathList, path.source = none →
      Dest.puid path = createPuid table.routeDist ipPrefix

/-- Every destination with a local path is processed after the change, and has a local path then. -/
def KeepsLocal (event : ChangeEvent) (table : VrfTable) : Prop :=
  ∀ ipPrefix, (∃ path ∈ (table.dests ipPrefix).knownPathList, path.source = none) →
    ∃ dest, ((table.onChgVrfConf labelOf madeFor mapByName vpnPaths event).2.dests
      ipPrefix).processPaths = (.ok (), dest) ∧ ∃ path ∈ dest.knownPathList, path.source = none

/-- A local path outlives the change: none of the known paths of its destination is withdrawn twice,
and the path is installed anew, or it is neither withdrawn nor replaced. -/
structure Spared (event : ChangeEvent) (table : VrfTable) (ipPrefix : IpPrefix) (path : TablePath) :
    Prop where
  once : ∀ p ∈ (table.dests ipPrefix).knownPathList,
    ((table.dests ipPrefix).withdrawList.map Dest.puid).count (Dest.puid p) +
      (if HasRtsIn p.toVrfPath table.settings.importRts then 0 else 1) +
      (appliedMaps mapByName event).countP (fun map => map.Matches p.toVrfPath) ≤ 1
  installed : event.reExport ∨
    (∃ p ∈ (table.dests ipPrefix).newPathList, p.source = none) ∨
    (Dest.puid path ∉ (table.dests ipPrefix).withdrawList.map Dest.puid ∧
      HasRtsIn path.toVrfPath table.settings.importRts ∧
      (∀ map ∈ appliedMaps mapByName event, ¬map.Matches path.toVrfPath) ∧
      Dest.puid path ∉ (table.dests ipPrefix).newPathList.map Dest.puid ∧
      ∀ vpn ∈ vpnPaths, vpn.puid = Dest.puid path → ¬table.Imported mapByName event vpn)

section Local

variable {labelOf madeFor mapByName vpnPaths} {event : ChangeEvent} {table : VrfTable}
  {ipPrefix : IpPrefix}

/-- The withdrawals of a known path when the handler is done. -/
theorem WellFormed.count_withdrawList (h : table.WellFormed)
    (hmem : path ∈ (table.dests ipPrefix).knownPathList) :
    (((table.onChgVrfConf labelOf madeFor mapByName vpnPaths event).2.dests
      ipPrefix).withdrawList.map Dest.puid).count (Dest.puid path) =
      ((table.dests ipPrefix).withdrawList.map Dest.puid).count (Dest.puid path) +
      (if HasRtsIn path.toVrfPath table.settings.importRts then 0 else 1) +
      (appliedMaps mapByName event).countP (fun map => map.Matches path.toVrfPath) := by
  have hunique := h.unique ipPrefix
  have huninteresting := hunique.count_withdrawals hmem fun p =>
    ¬HasRtsIn p.toVrfPath table.settings.importRts
  rw [dests_onChgVrfConf, dests_cleaned]
  simp only [map_append, count_append, huninteresting, hunique.count_mapped hmem, ite_not]

/-- The new paths when the handler is done. -/
theorem mem_newPathList {p : TablePath} :
    p ∈ ((table.onChgVrfConf labelOf madeFor mapByName vpnPaths event).2.dests
      ipPrefix).newPathList ↔ p ∈ (table.dests ipPrefix).newPathList ∨
      (event.reExport ∧ ∃ q ∈ (table.dests ipPrefix).knownPathList, q.source = none ∧
        table.localPath labelOf madeFor ipPrefix q.nexthop = p) ∨
      ∃ vpn ∈ vpnPaths, (vpn.ipPrefix = ipPrefix ∧ table.Imported mapByName event vpn) ∧
        ofVpnPath vpn = p := by
  rw [dests_onChgVrfConf, dests_cleaned]
  cases event.reExport <;> simp [and_assoc]

/-- A local path is new when the handler is done. -/
theorem exists_local_new_iff
    (hmem : path ∈ (table.dests ipPrefix).knownPathList) (hsource : path.source = none) :
    (∃ p ∈ ((table.onChgVrfConf labelOf madeFor mapByName vpnPaths event).2.dests
      ipPrefix).newPathList, p.source = none) ↔
      event.reExport ∨ ∃ p ∈ (table.dests ipPrefix).newPathList, p.source = none := by
  simp only [mem_newPathList]
  constructor
  · rintro ⟨p, hp | ⟨hre, -⟩ | ⟨vpn, -, -, rfl⟩, hlocal⟩
    · exact .inr ⟨p, hp, hlocal⟩
    · exact .inl hre
    · cases hlocal
  · rintro (hre | ⟨p, hp, hlocal⟩)
    · exact ⟨_, .inr (.inl ⟨hre, path, hmem, hsource, rfl⟩), rfl⟩
    · exact ⟨p, .inl hp, hlocal⟩

section

variable (h : table.WellFormed) (hmem : path ∈ (table.dests ipPrefix).knownPathList)
include h hmem

/-- A path that is not re-exported is replaced by a pending path or by an import. -/
theorem WellFormed.puid_notMem_new_iff (hsource : path.source = none) (hre : ¬event.reExport) :
    Dest.puid path ∉ ((table.onChgVrfConf labelOf madeFor mapByName vpnPaths event).2.dests
      ipPrefix).newPathList.map Dest.puid ↔
      Dest.puid path ∉ (table.dests ipPrefix).newPathList.map Dest.puid ∧
      ∀ vpn ∈ vpnPaths, vpn.puid = Dest.puid path → ¬table.Imported mapByName event vpn := by
  have hpuid := h.localPuid ipPrefix path (mem_append_left _ hmem) hsource
  simp only [mem_map, mem_newPathList, not_exists, not_and]
  constructor
  · intro hnew
    refine ⟨fun p hp => hnew p (.inl hp), fun vpn hvpn heq himported => ?_⟩
    have hipPrefix : vpn.ipPrefix = ipPrefix := (createPuid_inj.1 (heq.trans hpuid)).2
    exact hnew _ (.inr (.inr ⟨vpn, hvpn, ⟨hipPrefix, himported⟩, rfl⟩)) heq
  · rintro ⟨hnew, himports⟩ p (hp | ⟨hre', -⟩ | ⟨vpn, hvpn, ⟨-, himported⟩, rfl⟩)
    · exact hnew p hp
    · exact absurd hre' hre
    · exact fun heq => himports vpn hvpn heq himported

theorem WellFormed.puid_notMem_withdrawList_iff :
    Dest.puid path ∉ ((table.onChgVrfConf labelOf madeFor mapByName vpnPaths event).2.dests
      ipPrefix).withdrawList.map Dest.puid ↔
      Dest.puid path ∉ (table.dests ipPrefix).withdrawList.map Dest.puid ∧
      HasRtsIn path.toVrfPath table.settings.importRts ∧
      ∀ map ∈ appliedMaps mapByName event, ¬map.Matches path.toVrfPath := by
  rw [← count_eq_zero, h.count_withdrawList hmem, ← count_eq_zero]
  by_cases hrts : HasRtsIn path.toVrfPath table.settings.importRts
  · simp [hrts, countP_eq_zero]
  · simp [hrts]

/-- One destination with a local path. -/
theorem WellFormed.processed_iff (hsource : path.source = none) :
    (∃ dest, ((table.onChgVrfConf labelOf madeFor mapByName vpnPaths event).2.dests
      ipPrefix).processPaths = (.ok (), dest) ∧ ∃ p ∈ dest.knownPathList, p.source = none) ↔
      Spared mapByName vpnPaths event table ipPrefix path := by
  have hknown : ((table.onChgVrfConf labelOf madeFor mapByName vpnPaths event).2.dests
      ipPrefix).knownPathList = (table.dests ipPrefix).knownPathList := by
    rw [dests_onChgVrfConf]
  have hlocal : ∀ p ∈ (table.dests ipPrefix).knownPathList, p.source = none ↔ p = path := by
    intro p hp
    refine ⟨fun hp' => ?_, fun heq => heq ▸ hsource⟩
    exact inj_on_of_nodup_map (h.unique ipPrefix) hp hmem
      ((h.localPuid _ p (mem_append_left _ hp) hp').trans
        (h.localPuid _ path (mem_append_left _ hmem) hsource).symm)
  rw [Dest.processPaths_local_iff (hknown ▸ h.unique ipPrefix) (hknown ▸ hmem) (hknown ▸ hlocal),
    hknown, exists_local_new_iff hmem hsource, h.puid_notMem_withdrawList_iff hmem]
  rw [forall₂_congr fun p hp => by rw [h.count_withdrawList hp]]
  by_cases hre : event.reExport
  · simp only [hre, true_or, and_true]
    exact ⟨fun honce => ⟨honce, .inl hre⟩, fun hspared => hspared.once⟩
  · rw [h.puid_notMem_new_iff hmem hsource hre]
    constructor
    · rintro ⟨honce, (hre' | hnew) | ⟨⟨hw, hrts, hmaps⟩, hnew, himports⟩⟩
      · exact absurd hre' hre
      · exact ⟨honce, .inr (.inl hnew)⟩
      · exact ⟨honce, .inr (.inr ⟨hw, hrts, hmaps, hnew, himports⟩)⟩
    · rintro ⟨honce, hre' | hnew | ⟨hw, hrts, hmaps, hnew, himports⟩⟩
      · exact absurd hre' hre
      · exact ⟨honce, .inl (.inr hnew)⟩
      · exact ⟨honce, .inr ⟨⟨hw, hrts, hmaps⟩, hnew, himports⟩⟩

end

/-- The local paths of a VRF outlive a change of the configuration if and only if each of them is
re-installed, or stays because it has an import route target and nothing else removes it. -/
theorem WellFormed.kept_iff (h : table.WellFormed) :
    KeepsLocal labelOf madeFor mapByName vpnPaths event table ↔
      ∀ ipPrefix, ∀ path ∈ (table.dests ipPrefix).knownPathList, path.source = none →
        Spared mapByName vpnPaths event table ipPrefix path := by
  constructor
  · intro hkeeps ipPrefix path hmem hsource
    exact (h.processed_iff hmem hsource).1 (hkeeps ipPrefix ⟨path, hmem, hsource⟩)
  · rintro hspared ipPrefix ⟨path, hmem, hsource⟩
    exact (h.processed_iff hmem hsource).2 (hspared ipPrefix path hmem hsource)

end Local

end VrfTable

/-! ## Runs of a VRF table -/

inductive Event where
  /-- `insert_vrf_path` for a prefix of the network controller -/
  | insertVrfPath (ipPrefix : IpPrefix) (nexthop : Bytes) (madeFor : Nat)
  | withdrawVrfPath (ipPrefix : IpPrefix)
  /-- the best path of a VPN destination is new, or is lost -/
  | importVpnPath (path : VpnPath) (isWithdraw : Bool)
  /-- the configuration is updated, with the best paths that the VPN table has then -/
  | changeConf (new : Settings) (vpnPaths : List VpnPath) (madeFor : IpPrefix → Nat)
  | processDest (ipPrefix : IpPrefix)

namespace VrfTable

def updateDest (table : VrfTable) (ipPrefix : IpPrefix) (f : Dest → Dest) : VrfTable :=
  { table with dests := Function.update table.dests ipPrefix (f (table.dests ipPrefix)) }

def insertVrfPath (table : VrfTable) (ipPrefix : IpPrefix) (nexthop : Bytes) (madeFor : Nat) :
    VrfTable :=
  table.updateDest ipPrefix fun dest =>
    { dest with
      newPathList :=
        dest.newPathList ++ [table.localPath labelOf (fun _ => madeFor) ipPrefix nexthop] }

/-- The path has no attributes, no labels and no next hop. -/
def withdrawVrfPath (table : VrfTable) (ipPrefix : IpPrefix) : VrfTable :=
  table.updateDest ipPrefix fun dest =>
    { dest with
      withdrawList :=
        dest.withdrawList ++ [⟨⟨createPuid table.routeDist ipPrefix, [], [], []⟩, none⟩] }

/-- The import of a withdrawal has no attributes: it is not known, and no map matches it. -/
def withdrawVpnPath (table : VrfTable) (path : VpnPath) : VrfTable :=
  table.updateDest path.ipPrefix fun dest =>
    { dest with withdrawList := dest.withdrawList ++ [(ofVpnPath path).withdrawal] }

def changeConf (table : VrfTable) (new : Settings) : VrfTable :=
  match table.settings.update new with
  | (settings, none) => { table with settings }
  | (settings, some event) =>
    (onChgVrfConf labelOf madeFor mapByName vpnPaths event { table with settings }).2

def step (table : VrfTable) : Event → VrfTable
  | .insertVrfPath ipPrefix nexthop madeFor => table.insertVrfPath labelOf ipPrefix nexthop madeFor
  | .withdrawVrfPath ipPrefix => table.withdrawVrfPath ipPrefix
  | .importVpnPath path isWithdraw =>
    if isWithdraw then table.withdrawVpnPath path else table.importVpnPath path
  | .changeConf new vpnPaths madeFor => table.changeConf labelOf madeFor mapByName vpnPaths new
  | .processDest ipPrefix => table.updateDest ipPrefix fun dest => dest.processPaths.2

/-- From the table of a VRF that is added. -/
def run (routeDist : RouteDist) (ipv6 : Bool) (settings : Settings) (events : List Event) :
    VrfTable :=
  events.foldl (step labelOf mapByName)
    ⟨routeDist, ipv6, settings, (initImportMaps mapByName settings.importMaps).2, fun _ => {}⟩

/-- No two new paths of one `puid` are processed at once. -/
def Apart (table : VrfTable) : Event → Prop
  | .processDest ipPrefix => ((table.dests ipPrefix).newPathList.map Dest.puid).Nodup
  | _ => True

end VrfTable

namespace Dest

theorem removeMatches_sublist (known matched : List TablePath) :
    (removeMatches known matched).2 <+ known := by
  induction matched generalizing known with
  | nil => exact .refl _
  | cons path matched ih =>
    rw [removeMatches]
    split
    · exact (ih _).trans eraseP_sublist
    · exact .refl _

variable (dest : Dest)

theorem removeWithdrawals_known :
    dest.removeWithdrawals.2.knownPathList <+ dest.knownPathList ∧
      dest.removeWithdrawals.2.newPathList = dest.newPathList := by
  have hsub := removeMatches_sublist dest.knownPathList
    (dest.withdrawList.filterMap (findMatch puid dest.knownPathList))
  unfold removeWithdrawals
  split
  · exact ⟨.refl _, rfl⟩
  split
  · exact ⟨.refl _, rfl⟩
  · dsimp only
    split <;> (rename_i hm; rw [hm] at hsub; exact ⟨hsub, rfl⟩)

/-- What is known or waits after processing was known or waited before. -/
theorem mem_of_mem_processPaths
    (h : path ∈ dest.processPaths.2.knownPathList ++ dest.processPaths.2.newPathList) :
    path ∈ dest.knownPathList ++ dest.newPathList := by
  obtain ⟨hknown, hnew⟩ := dest.removeWithdrawals_known
  unfold processPaths at h
  split at h <;> (rename_i hremove; rw [hremove] at hknown hnew)
  · rw [hnew] at h
    exact mem_append.2 ((mem_append.1 h).imp_left (hknown.subset ·))
  · rw [append_nil, hnew] at h
    exact mem_append.2 ((mem_append.1 h).imp_left fun hp => hknown.subset (mem_of_mem_removeOld hp))

theorem unique_processPaths {dest : Dest} (h : Unique dest.knownPathList)
    (hnew : (dest.newPathList.map puid).Nodup) : Unique dest.processPaths.2.knownPathList := by
  obtain ⟨hsub, hsame⟩ := dest.removeWithdrawals_known
  unfold processPaths
  split <;> (rename_i hremove; rw [hremove] at hsub hsame)
  · exact h.sublist (hsub.map puid)
  · rename_i known
    have hknown : Unique known.knownPathList := h.sublist (hsub.map puid)
    rw [← hsame] at hnew
    rw [Unique, map_append]
    refine (hknown.sublist ((removeOld_sublist _ _).map puid)).append hnew ?_
    intro u hu hu'
    obtain ⟨path, hpath, rfl⟩ := mem_map.1 hu
    exact ((mem_removeOld_iff hknown).1 hpath).2 hu'

end Dest

namespace VrfTable

variable {labelOf mapByName} {table : VrfTable} {routeDist : RouteDist} {ipv6 : Bool}
  {settings : Settings} {events : List Event}

/-- Paths may be added that wait, local ones under the `puid` of the VRF. -/
theorem WellFormed.of_dests {table' : VrfTable} (h : table.WellFormed)
    (hroute : table'.routeDist = table.routeDist)
    (hdests : ∀ ipPrefix, (table'.dests ipPrefix).knownPathList =
      (table.dests ipPrefix).knownPathList ∧
      ∀ path ∈ (table'.dests ipPrefix).newPathList, path ∈ (table.dests ipPrefix).newPathList ∨
        (path.source = none → Dest.puid path = createPuid table.routeDist ipPrefix)) :
    table'.WellFormed := by
  refine ⟨fun ipPrefix => (hdests ipPrefix).1 ▸ h.unique ipPrefix,
    fun ipPrefix path hpath hsource => ?_⟩
  obtain ⟨hknown, hnew⟩ := hdests ipPrefix
  rw [hroute]
  rw [hknown, mem_append] at hpath
  rcases hpath with hpath | hpath
  · exact h.localPuid ipPrefix path (mem_append_left _ hpath) hsource
  · rcases hnew path hpath with hold | hpuid
    · exact h.localPuid ipPrefix path (mem_append_right _ hold) hsource
    · exact hpuid hsource

theorem dests_updateDest (table : VrfTable) (ipPrefix ipPrefix' : IpPrefix) (f : Dest → Dest) :
    (table.updateDest ipPrefix f).dests ipPrefix' =
      if ipPrefix' = ipPrefix then f (table.dests ipPrefix') else table.dests ipPrefix' := by
  simp only [updateDest, Function.update_apply]
  split
  · rename_i heq
    rw [heq]
  · rfl

theorem WellFormed.updateDest (h : table.WellFormed) (ipPrefix : IpPrefix) {f : Dest → Dest}
    (hknown : ∀ dest : Dest, (f dest).knownPathList = dest.knownPathList)
    (hnew : ∀ dest : Dest, ∀ path ∈ (f dest).newPathList, path ∈ dest.newPathList ∨
      (path.source = none → Dest.puid path = createPuid table.routeDist ipPrefix)) :
    (table.updateDest ipPrefix f).WellFormed := by
  refine h.of_dests rfl fun ipPrefix' => ?_
  rw [dests_updateDest]
  split
  · rename_i heq
    subst heq
    exact ⟨hknown _, hnew _⟩
  · exact ⟨rfl, fun path hpath => .inl hpath⟩

theorem routeDist_importVpnPaths (paths : List VpnPath) (table : VrfTable) :
    (paths.foldl importVpnPath table).routeDist = table.routeDist := by
  induction paths generalizing table with
  | nil => rfl
  | cons path paths ih =>
    rw [foldl_cons, ih, importVpnPath]
    split <;> rfl

theorem routeDist_onChgVrfConf (event : ChangeEvent) (table : VrfTable) :
    (table.onChgVrfConf labelOf madeFor mapByName vpnPaths event).2.routeDist =
      table.routeDist := by
  have hcleaned : (table.cleaned labelOf madeFor event).routeDist = table.routeDist := by
    unfold cleaned
    cases event.reExport <;> rfl
  refine Eq.trans ?_ hcleaned
  unfold onChgVrfConf
  dsimp only
  split
  · rfl
  · exact routeDist_importVpnPaths _ _

theorem WellFormed.onChgVrfConf (h : table.WellFormed) (event : ChangeEvent) :
    (table.onChgVrfConf labelOf madeFor mapByName vpnPaths event).2.WellFormed := by
  refine h.of_dests (routeDist_onChgVrfConf madeFor vpnPaths event table) fun ipPrefix => ⟨?_, ?_⟩
  · rw [dests_onChgVrfConf]
  · intro path hpath
    rcases mem_newPathList.1 hpath with hold | ⟨-, q, -, -, rfl⟩ | ⟨vpn, -, -, rfl⟩
    · exact .inl hold
    · exact .inr fun _ => rfl
    · exact .inr nofun

theorem WellFormed.changeConf (h : table.WellFormed) (new : Settings) :
    (table.changeConf labelOf madeFor mapByName vpnPaths new).WellFormed := by
  unfold VrfTable.changeConf
  split
  · exact h.of_dests rfl fun _ => ⟨rfl, fun path hpath => .inl hpath⟩
  · rename_i settings _ _
    have hsettings : { table with settings := settings }.WellFormed :=
      h.of_dests rfl fun _ => ⟨rfl, fun path hpath => .inl hpath⟩
    exact hsettings.onChgVrfConf madeFor vpnPaths _

theorem WellFormed.processDest (h : table.WellFormed) (ipPrefix : IpPrefix)
    (hapart : table.Apart (.processDest ipPrefix)) :
    (table.updateDest ipPrefix fun dest => dest.processPaths.2).WellFormed := by
  constructor
  · intro ipPrefix'
    rw [dests_updateDest]
    split
    · rename_i heq
      subst heq
      exact Dest.unique_processPaths (h.unique _) hapart
    · exact h.unique ipPrefix'
  · intro ipPrefix' path hpath hsource
    rw [dests_updateDest] at hpath
    split at hpath
    · exact h.localPuid ipPrefix' path (Dest.mem_of_mem_processPaths _ hpath) hsource
    · exact h.localPuid ipPrefix' path hpath hsource

theorem WellFormed.step (h : table.WellFormed) {event : Event} (hapart : table.Apart event) :
    (table.step labelOf mapByName event).WellFormed := by
  cases event with
  | insertVrfPath ipPrefix nexthop madeFor =>
    unfold VrfTable.step VrfTable.insertVrfPath
    refine h.updateDest ipPrefix (fun _ => rfl) fun dest path hpath => ?_
    rcases mem_append.1 hpath with hold | hlast
    · exact .inl hold
    · cases mem_singleton.1 hlast
      exact .inr fun _ => rfl
  | withdrawVrfPath ipPrefix =>
    unfold VrfTable.step VrfTable.withdrawVrfPath
    exact h.updateDest ipPrefix (fun _ => rfl) fun _ _ => .inl
  | importVpnPath path isWithdraw =>
    cases isWithdraw with
    | true =>
      show (table.withdrawVpnPath path).WellFormed
      unfold VrfTable.withdrawVpnPath
      exact h.updateDest path.ipPrefix (fun _ => rfl) fun _ _ => .inl
    | false =>
      refine h.of_dests (routeDist_importVpnPaths [path] table) fun ipPrefix => ?_
      rw [show table.step labelOf mapByName (.importVpnPath path false) = table.importVpnPath path
        from rfl, dests_importVpnPath]
      refine ⟨rfl, fun p hp => ?_⟩
      rcases mem_append.1 hp with hold | hlast
      · exact .inl hold
      · split at hlast
        · cases mem_singleton.1 hlast
          exact .inr nofun
        · cases hlast
  | changeConf new vpnPaths madeFor => exact h.changeConf madeFor vpnPaths new
  | processDest ipPrefix => exact h.processDest ipPrefix hapart

theorem run_concat (event : Event) :
    run labelOf mapByName routeDist ipv6 settings (events ++ [event]) =
    (run labelOf mapByName routeDist ipv6 settings events).step labelOf mapByName event := by
  simp [run]

variable (hapart : ∀ before event after, events = before ++ event :: after →
  (run labelOf mapByName routeDist ipv6 settings before).Apart event)
include hapart

theorem wellFormed_run : (run labelOf mapByName routeDist ipv6 settings events).WellFormed := by
  refine History.inv_of_throughout
    (fun before => (run labelOf mapByName routeDist ipv6 settings before).WellFormed)
    ⟨fun _ => nodup_nil, fun _ _ hpath => by cases hpath⟩ ?_ hapart
  intro before event h hevent
  rw [run_concat]
  exact h.step hevent

end VrfTable

end Handler

/-! ## A VRF with one local path -/

/-- The settings of a VRF that exports one route target. -/
def exportSettings (importRts : List RouteTarget) : Settings :=
  ⟨importRts, [(65000, 200)], [], none, []⟩

def tenSlashEight : IpPrefix := "10.0.0.0/8".toList

/-- 10.0.0.0/8 is added and its destination processed. -/
def exportEvents : List Event :=
  [.insertVrfPath tenSlashEight [192, 0, 2, 1] 1, .processDest tenSlashEight]

/-- The table then, with the new import route targets. -/
def exportTable (importRts importRts' : List RouteTarget) : VrfTable :=
  { VrfTable.run (fun _ => 16) (fun _ => none) exporter false (exportSettings importRts)
      exportEvents with settings := exportSettings importRts' }

/-- The path as the VPN table has it. -/
def exportedPath : VpnPath where
  source := none
  ipv6 := false
  routeDist := exporter
  ipPrefix := tenSlashEight
  labelList := [16]
  nexthop := [192, 0, 2, 1]
  pathattrMap := (exportSettings []).localValues.map (.mk 1)

theorem mem_exportTable {importRts importRts' : List RouteTarget} {ipPrefix : IpPrefix}
    {path : TablePath}
    (h : path ∈ ((exportTable importRts importRts').dests ipPrefix).knownPathList) :
    ipPrefix = tenSlashEight ∧ path = ⟨⟨createPuid exporter tenSlashEight, [16], [192, 0, 2, 1],
      exportedPath.pathattrMap⟩, none⟩ := by
  have hdest : (exportTable importRts importRts').dests ipPrefix =
      if ipPrefix = tenSlashEight then
        { knownPathList := [⟨⟨createPuid exporter tenSlashEight, [16], [192, 0, 2, 1],
          exportedPath.pathattrMap⟩, none⟩] }
      else {} := by
    simp only [exportTable, VrfTable.run, exportEvents, foldl_cons, foldl_nil, VrfTable.step,
      VrfTable.dests_updateDest, VrfTable.insertVrfPath]
    split <;> rfl
  rw [hdest] at h
  split at h
  · exact ⟨by assumption, by simpa using h⟩
  · cases h

end BebaCtrl.Bgp.VrfConfChange
