import BebaCtrl.Bgp.BestPath
import BebaCtrl.Lib.History
import BebaCtrl.Lib.Keyed
import BebaCtrl.Lib.Text

/-!
# Imports from the VPN tables into VRF tables

A change of the best path of a VPN destination is imported into the VRF tables that are interested
in its route targets, as a new path or a withdrawal of a VRF destination, which is queued and
processed later. A VRF that is added imports the best paths there are.

The paths of a VRF destination are told apart by `puid`, a text of the route distinguisher and the
prefix of the VPN path they were imported from. An import is left out if an equal path is known, and
attributes are equal only if they are the same objects: the same route announced twice is imported
twice. No VRF has import maps here. Only imported paths are looked at, and not which of them is
best.
-/

namespace BebaCtrl.Bgp.VrfImport

open Keyed List

/-- `route_dist`, the text of an administrator and an assigned number. -/
structure RouteDist where
  admin : List Char
  assigned : List Char
  colon_notMem_admin : ':' ∉ admin
  colon_notMem_assigned : ':' ∉ assigned
  deriving DecidableEq

def RouteDist.text (routeDist : RouteDist) : List Char :=
  routeDist.admin ++ ':' :: routeDist.assigned

/-- `nlri.prefix` -/
abbrev IpPrefix := List Char

abbrev Puid := List Char

def createPuid (routeDist : RouteDist) (ipPrefix : IpPrefix) : Puid :=
  routeDist.text ++ ':' :: ipPrefix

/-- The text tells the route distinguisher and the prefix. -/
theorem createPuid_inj {routeDist routeDist' : RouteDist} {ipPrefix ipPrefix' : IpPrefix} :
    createPuid routeDist ipPrefix = createPuid routeDist' ipPrefix' ↔
      routeDist = routeDist' ∧ ipPrefix = ipPrefix' := by
  obtain ⟨admin, assigned, hadmin, hassigned⟩ := routeDist
  obtain ⟨admin', assigned', hadmin', hassigned'⟩ := routeDist'
  simp only [createPuid, RouteDist.text, append_assoc, cons_append,
    Text.append_cons_inj_front hadmin hadmin', Text.append_cons_inj_front hassigned hassigned',
    RouteDist.mk.injEq, and_assoc]

/-- An attribute object. There is no `__eq__` for attributes, so that two of them are equal only if
they are one object: of one value, and made for the same message or path. -/
structure PathAttr where
  madeFor : Nat
  value : AttrValue
  deriving DecidableEq, Repr

/-- A best path of a VPN table. One without a source is an export of the VRF with its route
distinguisher. -/
structure VpnPath where
  source : Option Peer
  ipv6 : Bool
  routeDist : RouteDist
  ipPrefix : IpPrefix
  labelList : List Nat
  nexthop : Bytes
  pathattrMap : List PathAttr
  deriving DecidableEq

/-- The key of a VPN destination, with the table it is in. -/
structure VpnKey where
  ipv6 : Bool
  puid : Puid
  deriving DecidableEq, Repr

/-- What `VrfPath.__eq__` compares. -/
structure VrfPath where
  puid : Puid
  labelList : List Nat
  nexthop : Bytes
  pathattrMap : List PathAttr
  deriving DecidableEq, Repr

structure VrfConf where
  routeDist : RouteDist
  ipv6 : Bool
  importRts : List RouteTarget
  deriving DecidableEq

/-- `rd_rf_id` -/
abbrev VrfId := RouteDist × Bool

def VrfConf.id (vrf : VrfConf) : VrfId := (vrf.routeDist, vrf.ipv6)

def routeTargets (pathattrMap : List PathAttr) : List RouteTarget :=
  match (PathAttrMap.ofAttributes (pathattrMap.map PathAttr.value)).extendedCommunities with
  | none => []
  | some communities => rtList communities

namespace VpnPath

def puid (path : VpnPath) : Puid := createPuid path.routeDist path.ipPrefix

def key (path : VpnPath) : VpnKey := ⟨path.ipv6, path.puid⟩

def getRts (path : VpnPath) : List RouteTarget := routeTargets path.pathattrMap

/-- The path as it is imported; a withdrawal has no attributes. -/
def toVrf (path : VpnPath) (isWithdraw : Bool) : VrfPath where
  puid := path.puid
  labelList := path.labelList
  nexthop := path.nexthop
  pathattrMap := if isWithdraw then [] else path.pathattrMap

end VpnPath

/-! ## VRF destinations -/

structure VrfDest where
  knownPathList : List VrfPath := []
  newPathList : List VrfPath := []
  withdrawList : List VrfPath := []
  /-- does it wait to be processed? -/
  queued : Bool := false
  deriving DecidableEq, Repr

namespace VrfDest

/-- A path that is known already is not inserted. -/
def importVpnPath (path : VpnPath) (isWithdraw : Bool) (dest : VrfDest) : VrfDest :=
  let vrfPath := path.toVrf isWithdraw
  if vrfPath ∈ dest.knownPathList then dest
  else if isWithdraw then
    { dest with withdrawList := dest.withdrawList ++ [vrfPath], queued := true }
  else { dest with newPathList := dest.newPathList ++ [vrfPath], queued := true }

/-- `known.remove` for each match. The same path may be matched twice. -/
def removeMatches (known : List VrfPath) : List VrfPath → PyResult Unit × List VrfPath
  | [] => (.ok (), known)
  | path :: rest =>
    if path ∈ known then removeMatches (known.erase path) rest else (.error .valueError, known)

def removeWithdrawals (dest : VrfDest) : PyResult Unit × VrfDest :=
  if dest.withdrawList = [] then (.ok (), dest)
  else if dest.knownPathList = [] then (.ok (), { dest with withdrawList := [] })
  else
    let matched := dest.withdrawList.filterMap (findMatch VrfPath.puid dest.knownPathList)
    let wMatched := dest.withdrawList.filter fun withdraw =>
      (findMatch VrfPath.puid dest.knownPathList withdraw).isSome
    match removeMatches dest.knownPathList matched with
    | (.error e, known) => (.error e, { dest with knownPathList := known })
    | (.ok _, known) => (.ok (), { dest with
        knownPathList := known
        withdrawList := wMatched.foldl List.erase dest.withdrawList })

/-- `_process_paths`. A single new path is not treated apart, which makes no difference. -/
def processPaths (dest : VrfDest) : PyResult Unit × VrfDest :=
  match removeWithdrawals dest with
  | (.error e, dest) => (.error e, dest)
  | (.ok _, dest) => (.ok (), { dest with
      knownPathList := removeOld VrfPath.puid dest.knownPathList dest.newPathList ++
        dest.newPathList
      newPathList := [] })

/-- A destination is processed if it is in the queue. Without paths it leaves its table, and is made
anew when it is needed again. -/
def process (dest : VrfDest) : PyResult Unit × VrfDest :=
  if dest.queued then
    match processPaths { dest with queued := false } with
    | (.error e, dest) => (.error e, dest)
    | (.ok _, dest) => (.ok (), if dest.knownPathList = [] then {} else dest)
  else (.ok (), dest)

end VrfDest

/-! ## Tables -/

abbrev VrfTables := VrfId → IpPrefix → VrfDest

structure State where
  vrfs : List VrfConf := []
  /-- the best paths of the VPN destinations that have one -/
  bestPaths : List VpnPath := []
  vrfTables : VrfTables := fun _ _ => {}

def State.bestPath (s : State) (key : VpnKey) : Option VpnPath :=
  s.bestPaths.find? fun path => path.key = key

/-- Does the VRF table have one of the route targets? -/
def VrfConf.IsInterested (vrf : VrfConf) (rts : List RouteTarget) : Prop :=
  ∃ rt ∈ rts, rt ∈ vrf.importRts

instance (vrf : VrfConf) (rts : List RouteTarget) : Decidable (vrf.IsInterested rts) :=
  inferInstanceAs (Decidable (∃ rt ∈ rts, rt ∈ vrf.importRts))

def VrfConf.Exported (vrf : VrfConf) (path : VpnPath) : Prop :=
  path.source = none ∧ path.routeDist = vrf.routeDist

instance (vrf : VrfConf) (path : VpnPath) : Decidable (vrf.Exported path) :=
  inferInstanceAs (Decidable (_ ∧ _))

def importInto (path : VpnPath) (isWithdraw : Bool) (tables : VrfTables) (vrf : VrfConf) :
    VrfTables :=
  Function.update tables vrf.id <| Function.update (tables vrf.id) path.ipPrefix <|
    (tables vrf.id path.ipPrefix).importVpnPath path isWithdraw

/-- Only the tables that are linked to one of the route targets are gone through. -/
def importSingleVpnPathToAllVrfs (vrfs : List VrfConf) (path : VpnPath) (isWithdraw : Bool)
    (pathRts : List RouteTarget) (tables : VrfTables) : VrfTables :=
  (vrfs.filter fun vrf => vrf.ipv6 = path.ipv6 ∧ vrf.IsInterested pathRts).foldl
    (fun tables vrf =>
      if vrf.Exported path then tables else importInto path isWithdraw tables vrf)
    tables

/-- Paths that are exports of the VRF are not left out here. -/
def importAllVpnPathsToVrf (bestPaths : List VpnPath) (vrf : VrfConf) (tables : VrfTables) :
    VrfTables :=
  (bestPaths.filter fun path => path.ipv6 = vrf.ipv6 ∧ vrf.IsInterested path.getRts).foldl
    (fun tables path => importInto path false tables vrf) tables

/-! ## Runs -/

inductive Event where
  | newBestPath (path : VpnPath)
  | bestPathLost (key : VpnKey)
  | addVrf (vrf : VrfConf)
  | processDest (vrf : VrfId) (ipPrefix : IpPrefix)

def State.newBestPath (s : State) (path : VpnPath) : State :=
  { s with
    bestPaths := s.bestPaths.filter (fun old => old.key ≠ path.key) ++ [path]
    vrfTables := importSingleVpnPathToAllVrfs s.vrfs path false path.getRts s.vrfTables }

def State.bestPathLost (s : State) (key : VpnKey) : State :=
  match s.bestPath key with
  | none => s
  | some old =>
    { s with
      bestPaths := s.bestPaths.filter fun path => path.key ≠ key
      vrfTables := importSingleVpnPathToAllVrfs s.vrfs old true old.getRts s.vrfTables }

/-- A second VRF with the same distinguisher and family is refused by the configuration. -/
def State.addVrf (s : State) (vrf : VrfConf) : State :=
  if vrf.id ∈ s.vrfs.map VrfConf.id then s
  else
    { s with
      vrfs := s.vrfs ++ [vrf]
      vrfTables := importAllVpnPathsToVrf s.bestPaths vrf s.vrfTables }

def State.processDest (s : State) (vrf : VrfId) (ipPrefix : IpPrefix) : State :=
  { s with
    vrfTables := Function.update s.vrfTables vrf <| Function.update (s.vrfTables vrf) ipPrefix <|
      (s.vrfTables vrf ipPrefix).process.2 }

def step (s : State) : Event → State
  | .newBestPath path => s.newBestPath path
  | .bestPathLost key => s.bestPathLost key
  | .addVrf vrf => s.addVrf vrf
  | .processDest vrf ipPrefix => s.processDest vrf ipPrefix

def run (events : List Event) : State := events.foldl step {}

/-! ## The mirror -/

/-- The VRF table is to have the path. -/
def VrfConf.Imports (vrf : VrfConf) (path : VpnPath) : Prop :=
  vrf.IsInterested path.getRts ∧ ¬vrf.Exported path

instance (vrf : VrfConf) (path : VpnPath) : Decidable (vrf.Imports path) :=
  inferInstanceAs (Decidable (_ ∧ ¬_))

/-- Labels, next hop and the values of the attributes. -/
abbrev Content := List Nat × Bytes × List AttrValue

def VpnPath.content (path : VpnPath) : Content :=
  (path.labelList, path.nexthop, path.pathattrMap.map PathAttr.value)

def VrfPath.content (path : VrfPath) : Content :=
  (path.labelList, path.nexthop, path.pathattrMap.map PathAttr.value)

/-- What the VRF table is to have for a VPN destination. -/
def State.wanted (s : State) (vrf : VrfConf) (puid : Puid) : Option Content :=
  ((s.bestPath ⟨vrf.ipv6, puid⟩).filter fun path => vrf.Imports path).map VpnPath.content

/-- When all queued destinations are processed, which raises nothing, each VRF table has the imports
of the current best paths and no others. -/
def State.Mirrors (s : State) : Prop :=
  ∀ vrf ∈ s.vrfs, ∀ ipPrefix, (s.vrfTables vrf.id ipPrefix).process.1 = .ok () ∧
    ∀ rd, (ofKey VrfPath.puid (createPuid rd ipPrefix)
      (s.vrfTables vrf.id ipPrefix).process.2.knownPathList).map VrfPath.content =
        (s.wanted vrf (createPuid rd ipPrefix)).toList

/-- No path with the `puid` waits to be processed. -/
def VrfDest.NoNew (dest : VrfDest) (puid : Puid) : Prop :=
  ofKey VrfPath.puid puid dest.newPathList = []

/-- An import of the path comes through: it is left out and the destination is about to have what
the path has, or none with its `puid` waits. -/
def VrfDest.Admits (dest : VrfDest) (path : VpnPath) : Prop :=
  if path.toVrf false ∈ dest.knownPathList then
    (∀ new ∈ ofKey VrfPath.puid path.puid dest.newPathList, new.content = path.content) ∧
      (dest.NoNew path.puid → ofKey VrfPath.puid path.puid dest.withdrawList = [])
  else dest.NoNew path.puid

/-- The event keeps the tables in agreement. -/
def Safe (s : State) : Event → Prop
  | .newBestPath path => ∀ vrf ∈ s.vrfs, vrf.ipv6 = path.ipv6 →
    (vrf.Imports path → (s.vrfTables vrf.id path.ipPrefix).Admits path) ∧
    (¬vrf.Imports path → ∀ old, s.bestPath path.key = some old → ¬vrf.Imports old)
  | .bestPathLost key => ∀ old, s.bestPath key = some old → ∀ vrf ∈ s.vrfs, vrf.ipv6 = key.ipv6 →
    vrf.Imports old → (s.vrfTables vrf.id old.ipPrefix).NoNew key.puid
  | .addVrf vrf => vrf.id ∉ s.vrfs.map VrfConf.id → ∀ path ∈ s.bestPaths, path.ipv6 = vrf.ipv6 →
    vrf.IsInterested path.getRts → ¬vrf.Exported path
  | .processDest _ _ => True

/-! ## One destination -/

variable {path : VpnPath} {puid : Puid}

namespace VrfDest

/-- Each `puid` has at most one path in each list, and only known paths are withdrawn. -/
structure Orderly (dest : VrfDest) : Prop where
  known : ∀ puid, (ofKey VrfPath.puid puid dest.knownPathList).length ≤ 1
  new : ∀ puid, (ofKey VrfPath.puid puid dest.newPathList).length ≤ 1
  withdraw : ∀ puid, (ofKey VrfPath.puid puid dest.withdrawList).length ≤ 1
  withdraw_known : ∀ puid, ofKey VrfPath.puid puid dest.withdrawList ≠ [] →
    ofKey VrfPath.puid puid dest.knownPathList ≠ []
  attributes : ∀ path ∈ dest.knownPathList ++ dest.newPathList, path.pathattrMap ≠ []

/-- Nothing waits in a destination that is not queued. -/
def Quiet (dest : VrfDest) : Prop :=
  dest.queued = false → dest.newPathList = [] ∧ dest.withdrawList = []

/-- What processing leaves of the paths with the `puid`. -/
def result (dest : VrfDest) (puid : Puid) : List VrfPath :=
  if ofKey VrfPath.puid puid dest.newPathList ≠ [] then ofKey VrfPath.puid puid dest.newPathList
  else if ofKey VrfPath.puid puid dest.withdrawList ≠ [] then []
  else ofKey VrfPath.puid puid dest.knownPathList

/-- An import leaves the destination in order, with `new` for the path. -/
def Takes (dest : VrfDest) (path : VpnPath) (isWithdraw : Bool) (new : List Content) : Prop :=
  Orderly (dest.importVpnPath path isWithdraw) ∧
    ∀ puid, ((dest.importVpnPath path isWithdraw).result puid).map VrfPath.content =
      if puid = path.puid then new else (dest.result puid).map VrfPath.content

theorem removeMatches_of_nodup {known matched : List VrfPath} (hnodup : matched.Nodup)
    (hmem : ∀ path ∈ matched, path ∈ known) :
    removeMatches known matched = (.ok (), matched.foldl List.erase known) := by
  induction matched generalizing known with
  | nil => rfl
  | cons path matched ih =>
    obtain ⟨hnot, hnodup⟩ := nodup_cons.1 hnodup
    rw [removeMatches, if_pos (hmem path (by simp))]
    refine ih hnodup fun p hp => ?_
    have hne : p ≠ path := fun h => hnot (h ▸ hp)
    exact (mem_erase_of_ne hne).2 (hmem p (by simp [hp]))

section Orderly

variable {dest : VrfDest} (h : Orderly dest)
include h

/-- Each withdrawal finds its path. -/
theorem Orderly.findMatch_isSome {withdraw : VrfPath} (hw : withdraw ∈ dest.withdrawList) :
    (findMatch VrfPath.puid dest.knownPathList withdraw).isSome :=
  findMatch_isSome_iff.2 (h.withdraw_known _ (ne_nil_of_mem (mem_ofKey.2 ⟨hw, rfl⟩)))

theorem Orderly.nodup_matched :
    (dest.withdrawList.filterMap
      (findMatch VrfPath.puid dest.knownPathList)).Nodup := by
  refine nodup_of_length_le_one VrfPath.puid fun puid => ?_
  rw [Keyed.ofKey_filterMap_findMatch]
  exact (length_filterMap_le _ _).trans (h.withdraw puid)

theorem Orderly.removeWithdrawals_eq :
    removeWithdrawals dest = (.ok (), { dest with
      knownPathList := (dest.withdrawList.filterMap
        (findMatch VrfPath.puid dest.knownPathList)).foldl List.erase dest.knownPathList
      withdrawList := [] }) := by
  unfold removeWithdrawals
  by_cases hw : dest.withdrawList = []
  · obtain ⟨known, newPaths, withdrawals, queued⟩ := dest
    obtain rfl : withdrawals = [] := hw
    rfl
  · have hk : dest.knownPathList ≠ [] := by
      intro hk
      obtain ⟨w, hmem⟩ := exists_mem_of_ne_nil _ hw
      have hsome := h.findMatch_isSome hmem
      simp [hk, findMatch] at hsome
    have hall : (dest.withdrawList.filter fun withdraw =>
        (findMatch VrfPath.puid dest.knownPathList withdraw).isSome) = dest.withdrawList :=
      filter_eq_self.2 fun w hmem => h.findMatch_isSome hmem
    have hmatches := removeMatches_of_nodup h.nodup_matched fun path hpath => by
      obtain ⟨w, -, hm⟩ := mem_filterMap.1 hpath
      exact (Keyed.mem_of_findMatch hm).1
    simp [hw, hk, hall, hmatches, Keyed.foldl_erase_self]

/-- The known paths after the withdrawals. -/
theorem Orderly.ofKey_withdrawn (puid : Puid) :
    ofKey VrfPath.puid puid ((dest.withdrawList.filterMap
        (findMatch VrfPath.puid dest.knownPathList)).foldl List.erase dest.knownPathList) =
      if ofKey VrfPath.puid puid dest.withdrawList ≠ [] then []
      else ofKey VrfPath.puid puid dest.knownPathList := by
  rw [Keyed.ofKey_foldl_erase, Keyed.ofKey_filterMap_findMatch]
  have hwithdraw := h.withdraw puid
  have hknown := h.known puid
  match hw : ofKey VrfPath.puid puid dest.withdrawList,
    hk : ofKey VrfPath.puid puid dest.knownPathList with
  | [], _ => simp
  | [w], [] => simp
  | [w], [path] => simp
  | _ :: _ :: _, _ => simp [hw] at hwithdraw
  | _, _ :: _ :: _ => simp [hk] at hknown

/-- Processing does what `result` says, and leaves nothing that waits. -/
theorem Orderly.processPaths_eq :
    ∃ known, processPaths dest = (.ok (), { dest with
        knownPathList := known, newPathList := [], withdrawList := [] }) ∧
      ∀ puid, ofKey VrfPath.puid puid known = dest.result puid := by
  unfold processPaths
  rw [h.removeWithdrawals_eq]
  refine ⟨_, rfl, fun puid => ?_⟩
  unfold result
  rw [Keyed.ofKey_append, Keyed.ofKey_removeOld, h.ofKey_withdrawn puid]
  have hknown := h.known puid
  by_cases hn : ofKey VrfPath.puid puid dest.newPathList = []
  · simp [hn]
  · have hdrop : (if ofKey VrfPath.puid puid dest.withdrawList ≠ [] then []
        else ofKey VrfPath.puid puid dest.knownPathList).length ≤
          (ofKey VrfPath.puid puid dest.newPathList).length := by
      have hpos : 0 < (ofKey VrfPath.puid puid dest.newPathList).length := length_pos_iff.2 hn
      split
      · simp
      · omega
    rw [drop_eq_nil_of_le hdrop, if_pos hn, nil_append]

theorem Orderly.process_eq (hquiet : dest.Quiet) :
    ∃ known, dest.process = (.ok (), { knownPathList := known }) ∧
      ∀ puid, ofKey VrfPath.puid puid known = dest.result puid := by
  unfold process
  by_cases hq : dest.queued
  · have hunqueued : Orderly { dest with queued := false } :=
      ⟨h.known, h.new, h.withdraw, h.withdraw_known, h.attributes⟩
    obtain ⟨known, hprocess, hresult⟩ := hunqueued.processPaths_eq
    rw [if_pos hq, hprocess]
    refine ⟨known, ?_, hresult⟩
    cases known <;> simp
  · obtain ⟨hnew, hwithdraw⟩ := hquiet (by simpa using hq)
    obtain ⟨known, newPaths, withdrawals, queued⟩ := dest
    obtain rfl : newPaths = [] := hnew
    obtain rfl : withdrawals = [] := hwithdraw
    obtain rfl : queued = false := by simpa using hq
    exact ⟨known, rfl, fun puid => by simp [result]⟩

theorem Orderly.length_result_le (puid : Puid) : (dest.result puid).length ≤ 1 := by
  have hnew := h.new puid
  have hknown := h.known puid
  unfold result
  grind

omit h in
/-- A destination with new paths only. -/
theorem result_of_new (paths : List VrfPath) (queued : Bool) (puid : Puid) :
    result { newPathList := paths, queued } puid = ofKey VrfPath.puid puid paths := by
  rw [result]
  split
  · rfl
  · rename_i hnil
    exact (not_not.1 hnil).symm

omit h in
theorem mem_of_mem_result {path : VrfPath} (hmem : path ∈ dest.result puid) :
    path ∈ dest.knownPathList ++ dest.newPathList := by
  unfold result at hmem
  grind

/-- What is known after processing is in order. -/
theorem Orderly.of_process {known : List VrfPath}
    (hknown : ∀ puid, ofKey VrfPath.puid puid known = dest.result puid) :
    Orderly { knownPathList := known } := by
  refine ⟨fun puid => ?_, by simp, by simp, by simp, fun path hpath => ?_⟩
  · rw [hknown]
    exact h.length_result_le puid
  · have hmem : path ∈ ofKey VrfPath.puid path.puid known :=
      mem_ofKey.2 ⟨by simpa using hpath, rfl⟩
    rw [hknown] at hmem
    exact h.attributes path (mem_of_mem_result hmem)

/-- What the destination is about to have for a known path. -/
theorem Orderly.content_result_iff (hmem : path.toVrf false ∈ dest.knownPathList) :
    (dest.result path.puid).map VrfPath.content = [path.content] ↔
      (∀ new ∈ ofKey VrfPath.puid path.puid dest.newPathList, new.content = path.content) ∧
        (dest.NoNew path.puid → ofKey VrfPath.puid path.puid dest.withdrawList = []) := by
  unfold NoNew result
  by_cases hnew : ofKey VrfPath.puid path.puid dest.newPathList = []
  · have hin : path.toVrf false ∈ ofKey VrfPath.puid path.puid dest.knownPathList :=
      mem_ofKey.2 ⟨hmem, rfl⟩
    obtain ⟨known, hknown⟩ := length_eq_one_iff.1
      (Nat.le_antisymm (h.known path.puid) (length_pos_of_mem hin))
    obtain rfl : path.toVrf false = known := by simpa [hknown] using hin
    have hcontent : (path.toVrf false).content = path.content := rfl
    by_cases hwithdraw : ofKey VrfPath.puid path.puid dest.withdrawList = []
    · simp [hnew, hwithdraw, hknown, hcontent]
    · simp [hnew, hwithdraw]
  · obtain ⟨new, heq⟩ := length_eq_one_iff.1
      (Nat.le_antisymm (h.new path.puid) (length_pos_iff.2 hnew))
    simp [heq]

/-- A path is imported when the destination admits it. -/
theorem Orderly.import (hattrs : path.pathattrMap ≠ []) (hadmits : dest.Admits path) :
    dest.Takes path false [path.content] := by
  unfold Admits at hadmits
  unfold Takes importVpnPath
  by_cases hmem : path.toVrf false ∈ dest.knownPathList
  · rw [if_pos hmem] at hadmits
    simp only [hmem, if_true]
    refine ⟨h, fun puid => ?_⟩
    split
    · rename_i hpuid
      subst hpuid
      exact (h.content_result_iff hmem).2 hadmits
    · rfl
  · rw [if_neg hmem] at hadmits
    simp only [hmem, if_false, Bool.false_eq_true]
    have hlast : ∀ puid, ofKey VrfPath.puid puid (dest.newPathList ++ [path.toVrf false]) =
        if puid = path.puid then [path.toVrf false]
        else ofKey VrfPath.puid puid dest.newPathList := ofKey_concat_of_nil hadmits
    refine ⟨⟨h.known, fun puid => ?_, h.withdraw, h.withdraw_known, ?_⟩, fun puid => ?_⟩
    · rw [hlast]
      split
      · simp
      · exact h.new puid
    · have hold := h.attributes
      simp only [mem_append, mem_singleton] at hold ⊢
      rintro p (hp | hp | rfl)
      · exact hold p (.inl hp)
      · exact hold p (.inr hp)
      · exact hattrs
    · simp only [result, hlast]
      split
      · rfl
      · rfl

theorem Orderly.withdraw_of_noNew (hnew : dest.NoNew path.puid)
    (hresult : dest.result path.puid ≠ []) :
    dest.Takes path true [] := by
  unfold NoNew at hnew
  have hwithdraw : ofKey VrfPath.puid path.puid dest.withdrawList = [] := by
    by_contra hne
    simp [result, hnew, hne] at hresult
  have hmem : path.toVrf true ∉ dest.knownPathList := fun hmem =>
    h.attributes _ (mem_append_left _ hmem) rfl
  have hlast : ∀ puid, ofKey VrfPath.puid puid (dest.withdrawList ++ [path.toVrf true]) =
      if puid = path.puid then [path.toVrf true]
      else ofKey VrfPath.puid puid dest.withdrawList := ofKey_concat_of_nil hwithdraw
  simp only [Takes, importVpnPath, hmem, if_false, if_true]
  refine ⟨⟨h.known, h.new, fun puid => ?_, fun puid => ?_, h.attributes⟩, fun puid => ?_⟩
  · rw [hlast]
    split
    · simp
    · exact h.withdraw puid
  · rw [hlast]
    split
    · rename_i hpuid
      subst hpuid
      exact fun _ hknown => hresult (by simp [result, hnew, hwithdraw, hknown])
    · exact h.withdraw_known puid
  · simp only [result, hlast]
    by_cases hpuid : puid = path.puid
    · simp [hpuid, hnew]
    · simp [hpuid]

end Orderly

variable {dest : VrfDest}

theorem quiet_import (h : dest.Quiet) (path : VpnPath) (isWithdraw : Bool) :
    (dest.importVpnPath path isWithdraw).Quiet := by
  unfold importVpnPath
  dsimp only
  split
  · exact h
  · split <;> exact fun h => absurd h (by simp)

theorem removeWithdrawals_newPathList (dest : VrfDest) :
    (removeWithdrawals dest).2.newPathList = dest.newPathList := by
  unfold removeWithdrawals
  grind

/-- Whatever else there is, the paths that wait become known if processing ends. -/
theorem process_suffix (hq : dest.queued = true) (hok : dest.process.1 = .ok ()) (puid : Puid) :
    ∃ paths, ofKey VrfPath.puid puid dest.process.2.knownPathList =
      paths ++ ofKey VrfPath.puid puid dest.newPathList := by
  have hnew := removeWithdrawals_newPathList { dest with queued := false }
  unfold process processPaths at hok ⊢
  rw [if_pos hq] at hok ⊢
  rcases hremove : removeWithdrawals { dest with queued := false } with ⟨_ | _, dest'⟩
  · simp [hremove] at hok
  · rw [hremove] at hnew
    simp only at hnew ⊢
    rw [hnew]
    split
    · rename_i hnil
      have hempty : dest.newPathList = [] := (append_eq_nil_iff.1 hnil).2
      exact ⟨[], by simp [hempty]⟩
    · exact ⟨_, ofKey_append ..⟩

/-- If processing gives what the imported path has, the destination admitted it. -/
theorem Orderly.of_import (h : Orderly dest) (hquiet : dest.Quiet)
    (hok : (dest.importVpnPath path false).process.1 = .ok ())
    (hknown : (ofKey VrfPath.puid path.puid
      (dest.importVpnPath path false).process.2.knownPathList).map VrfPath.content =
        [path.content]) : dest.Admits path := by
  unfold Admits
  by_cases hmem : path.toVrf false ∈ dest.knownPathList
  · -- the import is left out, so that the destination is processed as before
    have hskip : dest.importVpnPath path false = dest := if_pos hmem
    obtain ⟨known, hprocess, hprocessed⟩ := h.process_eq hquiet
    rw [hskip, hprocess] at hknown
    rw [if_pos hmem, ← h.content_result_iff hmem, ← hprocessed]
    exact hknown
  · have himport : dest.importVpnPath path false = VrfDest.mk dest.knownPathList
        (dest.newPathList ++ [path.toVrf false]) dest.withdrawList true := by
      simp [importVpnPath, hmem]
    rw [himport] at hok hknown
    obtain ⟨paths, hsuffix⟩ := process_suffix rfl hok path.puid
    rw [hsuffix, ofKey_concat_of_eq (show (path.toVrf false).puid = path.puid from rfl),
      ← append_assoc, map_append] at hknown
    rw [if_neg hmem]
    exact (append_eq_nil_iff.1 (map_eq_nil_iff.1 (append_inj' hknown rfl).1)).2

/-- If processing gives no path after a withdrawal, no path was waiting. -/
theorem noNew_of_withdraw (hquiet : dest.Quiet)
    (hok : (dest.importVpnPath path true).process.1 = .ok ())
    (hknown : (ofKey VrfPath.puid path.puid
      (dest.importVpnPath path true).process.2.knownPathList).map VrfPath.content = []) :
    dest.NoNew path.puid := by
  rw [map_eq_nil_iff] at hknown
  have hsame : (dest.importVpnPath path true).newPathList = dest.newPathList := by
    unfold importVpnPath
    grind
  by_cases hq : (dest.importVpnPath path true).queued = true
  · obtain ⟨paths, hsuffix⟩ := process_suffix hq hok path.puid
    rw [hsame] at hsuffix
    exact (append_eq_nil_iff.1 (hsuffix.symm.trans hknown)).2
  · have hnew := (quiet_import hquiet path true (by simpa using hq)).1
    simp [NoNew, ← hsame, hnew]

end VrfDest

/-! ## Tables under imports -/

theorem importInto_apply (path : VpnPath) (isWithdraw : Bool) (tables : VrfTables) (vrf : VrfConf)
    (id : VrfId) (ipPrefix : IpPrefix) :
    importInto path isWithdraw tables vrf id ipPrefix =
      if id = vrf.id ∧ ipPrefix = path.ipPrefix then
        (tables id ipPrefix).importVpnPath path isWithdraw
      else tables id ipPrefix := by
  unfold importInto
  by_cases hid : id = vrf.id
  · subst hid
    by_cases hp : ipPrefix = path.ipPrefix
    · simp [hp]
    · simp [hp]
  · simp [hid]

variable {vrfs : List VrfConf}

theorem foldl_importInto_apply (hids : (vrfs.map VrfConf.id).Nodup) (path : VpnPath)
    (isWithdraw : Bool) (tables : VrfTables) (id : VrfId) (ipPrefix : IpPrefix) :
    vrfs.foldl (fun tables vrf =>
        if vrf.Exported path then tables else importInto path isWithdraw tables vrf)
      tables id ipPrefix =
      if (∃ vrf ∈ vrfs, vrf.id = id ∧ ¬vrf.Exported path) ∧ ipPrefix = path.ipPrefix then
        (tables id ipPrefix).importVpnPath path isWithdraw
      else tables id ipPrefix := by
  induction vrfs generalizing tables with
  | nil => simp
  | cons vrf vrfs ih =>
    obtain ⟨hnot, hids⟩ := nodup_cons.1 hids
    have hother : ∀ v ∈ vrfs, v.id ≠ vrf.id := fun v hv heq => hnot (heq ▸ mem_map_of_mem hv)
    rw [foldl_cons, ih hids]
    by_cases hexp : vrf.Exported path
    · simp [hexp]
    · simp only [hexp, if_false, importInto_apply]
      by_cases hid : id = vrf.id
      · have hnone : ¬∃ v ∈ vrfs, v.id = id ∧ ¬v.Exported path := by
          rintro ⟨v, hv, hvid, -⟩
          exact hother v hv (hvid.trans hid)
        simp [hid ▸ hnone, hid, hexp]
      · simp [hid, Ne.symm hid]

variable {vrf : VrfConf}

/-- What an import into all interested tables does to one destination. -/
theorem importSingle_apply (hids : (vrfs.map VrfConf.id).Nodup) (hvrf : vrf ∈ vrfs) (path : VpnPath)
    (isWithdraw : Bool) (tables : VrfTables) (ipPrefix : IpPrefix) :
    importSingleVpnPathToAllVrfs vrfs path isWithdraw path.getRts tables vrf.id ipPrefix =
      if vrf.ipv6 = path.ipv6 ∧ vrf.Imports path ∧ ipPrefix = path.ipPrefix then
        (tables vrf.id ipPrefix).importVpnPath path isWithdraw
      else tables vrf.id ipPrefix := by
  have hsub := (filter_sublist (l := vrfs) (p := fun vrf =>
    vrf.ipv6 = path.ipv6 ∧ vrf.IsInterested path.getRts)).map VrfConf.id
  rw [importSingleVpnPathToAllVrfs, foldl_importInto_apply (hids.sublist hsub)]
  have hsame : ∀ v ∈ vrfs, v.id = vrf.id → v = vrf := fun v hv heq =>
    inj_on_of_nodup_map hids hv hvrf heq
  congr 1
  simp only [VrfConf.Imports, mem_filter, decide_eq_true_eq, eq_iff_iff]
  grind

theorem importSingle_apply_of_not_mem (hids : (vrfs.map VrfConf.id).Nodup) {id : VrfId}
    (hid : id ∉ vrfs.map VrfConf.id) (path : VpnPath) (isWithdraw : Bool) (tables : VrfTables)
    (ipPrefix : IpPrefix) :
    importSingleVpnPathToAllVrfs vrfs path isWithdraw path.getRts tables id ipPrefix =
      tables id ipPrefix := by
  have hsub := (filter_sublist (l := vrfs) (p := fun vrf =>
    vrf.ipv6 = path.ipv6 ∧ vrf.IsInterested path.getRts)).map VrfConf.id
  rw [importSingleVpnPathToAllVrfs, foldl_importInto_apply (hids.sublist hsub), if_neg]
  rintro ⟨⟨v, hv, rfl, -⟩, -⟩
  exact hid (mem_map_of_mem (mem_of_mem_filter hv))

theorem foldl_importAll_apply (paths : List VpnPath) (vrf : VrfConf) (tables : VrfTables)
    (id : VrfId) (ipPrefix : IpPrefix) :
    paths.foldl (fun tables path => importInto path false tables vrf) tables id ipPrefix =
      if id = vrf.id then
        (paths.filter fun path => path.ipPrefix = ipPrefix).foldl
          (fun dest path => dest.importVpnPath path false) (tables id ipPrefix)
      else tables id ipPrefix := by
  induction paths generalizing tables with
  | nil => simp
  | cons path paths ih =>
    rw [foldl_cons, ih]
    by_cases hid : id = vrf.id
    · by_cases hp : path.ipPrefix = ipPrefix
      · simp [hid, hp, importInto_apply]
      · simp [hid, hp, Ne.symm hp, importInto_apply]
    · simp [hid, importInto_apply]

/-- Imports into a destination that knows nothing. -/
theorem foldl_importVpnPath (paths : List VpnPath) (newPaths : List VrfPath) (queued : Bool) :
    paths.foldl (fun dest path => dest.importVpnPath path false)
        ({ newPathList := newPaths, queued := queued } : VrfDest) =
      { newPathList := newPaths ++ paths.map (·.toVrf false),
        queued := queued || !paths.isEmpty } := by
  induction paths generalizing newPaths queued with
  | nil => simp
  | cons path paths ih =>
    refine (ih (newPaths ++ [path.toVrf false]) true).trans ?_
    simp

/-! ## The invariant -/

/-- The destination of the VRF table is in order, and processing it gives what is wanted. -/
structure Settled (s : State) (vrf : VrfConf) (ipPrefix : IpPrefix) : Prop where
  orderly : (s.vrfTables vrf.id ipPrefix).Orderly
  quiet : (s.vrfTables vrf.id ipPrefix).Quiet
  result : ∀ rd, ((s.vrfTables vrf.id ipPrefix).result (createPuid rd ipPrefix)).map
    VrfPath.content = (s.wanted vrf (createPuid rd ipPrefix)).toList

structure Good (s : State) : Prop where
  ids : (s.vrfs.map VrfConf.id).Nodup
  keys : (s.bestPaths.map VpnPath.key).Nodup
  fresh : ∀ id ∉ s.vrfs.map VrfConf.id, ∀ ipPrefix, s.vrfTables id ipPrefix = {}
  settled : ∀ vrf ∈ s.vrfs, ∀ ipPrefix, Settled s vrf ipPrefix

variable {s : State}

theorem Good.mirrors (h : Good s) : s.Mirrors := by
  intro vrf hvrf ipPrefix
  obtain ⟨horderly, hquiet, hresult⟩ := h.settled vrf hvrf ipPrefix
  obtain ⟨known, hprocess, hknown⟩ := horderly.process_eq hquiet
  rw [hprocess]
  refine ⟨rfl, fun rd => ?_⟩
  rw [hknown, hresult]

theorem Settled.of_dest {ipPrefix : IpPrefix} {dest : VrfDest}
    (htable : s.vrfTables vrf.id ipPrefix = dest) (horderly : dest.Orderly) (hquiet : dest.Quiet)
    (hresult : ∀ rd, (dest.result (createPuid rd ipPrefix)).map VrfPath.content =
      (s.wanted vrf (createPuid rd ipPrefix)).toList) :
    Settled s vrf ipPrefix := by
  subst htable
  exact ⟨horderly, hquiet, hresult⟩

theorem Settled.of_eq {s' : State} {ipPrefix : IpPrefix} (h : Settled s vrf ipPrefix)
    (htable : s'.vrfTables vrf.id ipPrefix = s.vrfTables vrf.id ipPrefix)
    (hwanted : ∀ rd, s'.wanted vrf (createPuid rd ipPrefix) =
      s.wanted vrf (createPuid rd ipPrefix)) :
    Settled s' vrf ipPrefix :=
  .of_dest htable h.orderly h.quiet fun rd => by rw [hwanted, h.result]

/-- A path with route targets has attributes. -/
theorem VrfConf.IsInterested.attributes (h : vrf.IsInterested path.getRts) :
    path.pathattrMap ≠ [] := by
  intro hnil
  obtain ⟨rt, hrt, -⟩ := h
  simp [VpnPath.getRts, routeTargets, hnil, PathAttrMap.ofAttributes] at hrt

theorem wanted_eq_some (hbest : s.bestPath ⟨vrf.ipv6, puid⟩ = some path) :
    s.wanted vrf puid = if vrf.Imports path then some path.content else none := by
  unfold State.wanted
  split <;> simp_all [Option.filter_some]

theorem wanted_eq_none (hbest : s.bestPath ⟨vrf.ipv6, puid⟩ = none) :
    s.wanted vrf puid = none := by
  simp [State.wanted, hbest]

/-! ### A new best path -/

theorem bestPath_newBestPath (s : State) (path : VpnPath) (key : VpnKey) :
    (s.newBestPath path).bestPath key = if key = path.key then some path else s.bestPath key :=
  find?_filter_ne_concat key s.bestPaths path

theorem wanted_newBestPath (s : State) (path : VpnPath) (vrf : VrfConf) (puid : Puid) :
    (s.newBestPath path).wanted vrf puid =
      if vrf.ipv6 = path.ipv6 ∧ puid = path.puid then
        if vrf.Imports path then some path.content else none
      else s.wanted vrf puid := by
  simp only [State.wanted, bestPath_newBestPath, VpnPath.key, VpnKey.mk.injEq]
  split
  · rw [Option.filter_some]
    split <;> simp_all
  · rfl

/-- Nothing is wanted of a best path that is not imported. -/
theorem wanted_eq_none_iff :
    s.wanted vrf puid = none ↔
      ∀ old, s.bestPath ⟨vrf.ipv6, puid⟩ = some old → ¬vrf.Imports old := by
  cases hbest : s.bestPath ⟨vrf.ipv6, puid⟩ with
  | none => simp [wanted_eq_none hbest]
  | some old => simp [wanted_eq_some hbest]

theorem nodup_newBestPath (h : (s.bestPaths.map VpnPath.key).Nodup) (path : VpnPath) :
    ((s.newBestPath path).bestPaths.map VpnPath.key).Nodup := by
  have hold := h.sublist ((filter_sublist (l := s.bestPaths)
    (p := fun old => old.key ≠ path.key)).map VpnPath.key)
  simp only [State.newBestPath, map_append, map_cons, map_nil]
  refine hold.append (nodup_singleton _) ?_
  simp

section Step

variable {s : State} (h : Good s)
include h

/-- A path, or its withdrawal, is imported into the tables, which are then to have `new` for it. -/
theorem Good.of_importSingle {s' : State} {best : List VpnPath} {isWithdraw : Bool}
    (new : Option Content) (hs : s' = { s with
      bestPaths := best
      vrfTables := importSingleVpnPathToAllVrfs s.vrfs path isWithdraw path.getRts s.vrfTables })
    (hkeys : (best.map VpnPath.key).Nodup)
    (hwanted : ∀ vrf puid, s'.wanted vrf puid = if vrf.ipv6 = path.ipv6 ∧ puid = path.puid then
      if vrf.Imports path then new else none else s.wanted vrf puid)
    (htakes : ∀ vrf ∈ s.vrfs, vrf.ipv6 = path.ipv6 → vrf.Imports path →
      (s.vrfTables vrf.id path.ipPrefix).Takes path isWithdraw new.toList)
    (hnone : ∀ vrf ∈ s.vrfs, vrf.ipv6 = path.ipv6 → ¬vrf.Imports path →
      s.wanted vrf path.puid = none) : Good s' := by
  subst hs
  refine ⟨h.ids, hkeys, fun id hid ipPrefix => ?_, fun vrf hvrf ipPrefix => ?_⟩
  · exact (importSingle_apply_of_not_mem h.ids hid path isWithdraw _ _).trans
      (h.fresh id hid ipPrefix)
  · have hsettled := h.settled vrf hvrf ipPrefix
    have htable := importSingle_apply h.ids hvrf path isWithdraw s.vrfTables ipPrefix
    by_cases himport : vrf.ipv6 = path.ipv6 ∧ vrf.Imports path ∧ ipPrefix = path.ipPrefix
    · rw [if_pos himport] at htable
      obtain ⟨hfamily, himp, rfl⟩ := himport
      obtain ⟨horderly, hresult⟩ := htakes vrf hvrf hfamily himp
      have hquiet := VrfDest.quiet_import hsettled.quiet path isWithdraw
      refine .of_dest htable horderly hquiet fun rd => ?_
      rw [hresult, hwanted]
      by_cases hpuid : createPuid rd path.ipPrefix = path.puid
      · simp [hpuid, hfamily, himp]
      · simp [hpuid, hsettled.result]
    · rw [if_neg himport] at htable
      refine hsettled.of_eq htable fun rd => ?_
      rw [hwanted]
      split
      next hkey =>
        have hnot : ¬vrf.Imports path := fun himp =>
          himport ⟨hkey.1, himp, (createPuid_inj.1 hkey.2).2⟩
        rw [if_neg hnot, hkey.2, hnone vrf hvrf hkey.1 hnot]
      next => rfl

theorem Good.newBestPath (hsafe : Safe s (.newBestPath path)) : Good (s.newBestPath path) := by
  refine h.of_importSingle _ rfl (nodup_newBestPath h.keys path) (wanted_newBestPath s path)
    (fun vrf hvrf hfamily himp => ?_) (fun vrf hvrf hfamily hnot => ?_)
  · have hadmits := (hsafe vrf hvrf hfamily).1 himp
    exact (h.settled vrf hvrf path.ipPrefix).orderly.import himp.1.attributes hadmits
  · have hold := (hsafe vrf hvrf hfamily).2 hnot
    rw [wanted_eq_none_iff]
    rwa [hfamily]

/-- The tables agree after a new best path only if it was safe. -/
theorem Good.safe_of_mirrors_newBestPath (hmirrors : (s.newBestPath path).Mirrors) :
    Safe s (.newBestPath path) := by
  intro vrf hvrf hfamily
  obtain ⟨horderly, hquiet, hresult⟩ := h.settled vrf hvrf path.ipPrefix
  obtain ⟨hok, hknown⟩ := hmirrors vrf hvrf path.ipPrefix
  have hknown := hknown path.routeDist
  have htable : (s.newBestPath path).vrfTables vrf.id path.ipPrefix = _ :=
    importSingle_apply h.ids hvrf path false s.vrfTables path.ipPrefix
  rw [wanted_newBestPath, if_pos ⟨hfamily, rfl⟩] at hknown
  rw [htable] at hok hknown
  refine ⟨fun himp => ?_, fun hnot => ?_⟩
  · simp only [hfamily, himp, and_self, if_true, Option.toList_some] at hok hknown
    exact horderly.of_import hquiet hok hknown
  · simp only [hfamily, hnot, and_false, false_and, if_false, Option.toList_none] at hknown
    obtain ⟨known, hprocess, hprocessed⟩ := horderly.process_eq hquiet
    rw [hprocess] at hknown
    have hwanted := hresult path.routeDist
    rw [← hprocessed] at hwanted
    have hnone := hwanted.symm.trans hknown
    have hold := wanted_eq_none_iff.1 (Option.toList_eq_nil_iff.1 hnone)
    rwa [hfamily] at hold

/-! ### A lost best path -/

omit h in
theorem bestPath_bestPathLost (s : State) (key key' : VpnKey) :
    (s.bestPathLost key).bestPath key' = if key' = key then none else s.bestPath key' := by
  unfold State.bestPathLost
  cases hbest : s.bestPath key with
  | none =>
    dsimp only
    split
    · rename_i heq
      rw [heq, hbest]
    · rfl
  | some old => exact find?_filter_ne key' key s.bestPaths

variable {key : VpnKey} {old : VpnPath}

omit h in
theorem key_of_bestPath (hbest : s.bestPath key = some old) : old.key = key := by
  simpa using find?_some hbest

omit h in
theorem bestPathLost_eq (hbest : s.bestPath old.key = some old) :
    s.bestPathLost old.key = { s with
      bestPaths := s.bestPaths.filter fun path => path.key ≠ old.key
      vrfTables := importSingleVpnPathToAllVrfs s.vrfs old true old.getRts s.vrfTables } := by
  simp [State.bestPathLost, hbest]

theorem Good.bestPathLost_apply (hbest : s.bestPath old.key = some old) (hvrf : vrf ∈ s.vrfs)
    (ipPrefix : IpPrefix) : (s.bestPathLost old.key).vrfTables vrf.id ipPrefix =
      if vrf.ipv6 = old.ipv6 ∧ vrf.Imports old ∧ ipPrefix = old.ipPrefix then
        (s.vrfTables vrf.id ipPrefix).importVpnPath old true
      else s.vrfTables vrf.id ipPrefix := by
  rw [bestPathLost_eq hbest]
  exact importSingle_apply h.ids hvrf old true s.vrfTables ipPrefix

omit h in
theorem wanted_of_bestPath (hbest : s.bestPath old.key = some old) (hfamily : vrf.ipv6 = old.ipv6) :
    s.wanted vrf old.puid = if vrf.Imports old then some old.content else none := by
  refine wanted_eq_some ?_
  rw [hfamily]
  exact hbest

omit h in
theorem wanted_bestPathLost (s : State) (key : VpnKey) (vrf : VrfConf) (puid : Puid) :
    (s.bestPathLost key).wanted vrf puid =
      if vrf.ipv6 = key.ipv6 ∧ puid = key.puid then none else s.wanted vrf puid := by
  obtain ⟨ipv6, puid'⟩ := key
  simp only [State.wanted, bestPath_bestPathLost, VpnKey.mk.injEq]
  split <;> rfl

theorem Good.bestPathLost (hsafe : Safe s (.bestPathLost key)) : Good (s.bestPathLost key) := by
  cases hbest : s.bestPath key with
  | none =>
    have hsame : s.bestPathLost key = s := by simp [State.bestPathLost, hbest]
    rwa [hsame]
  | some old =>
    obtain rfl := key_of_bestPath hbest
    refine h.of_importSingle none (bestPathLost_eq hbest)
      (h.keys.sublist (filter_sublist.map VpnPath.key)) (fun vrf puid => ?_)
      (fun vrf hvrf hfamily himp => ?_) (fun vrf hvrf hfamily hnot => ?_)
    · rw [wanted_bestPathLost, ite_self]
      rfl
    · have hsettled := h.settled vrf hvrf old.ipPrefix
      refine hsettled.orderly.withdraw_of_noNew (hsafe old hbest vrf hvrf hfamily himp) ?_
      have hresult := hsettled.result old.routeDist
      have hwanted := wanted_of_bestPath hbest hfamily
      rw [if_pos himp] at hwanted
      intro hnil
      rw [show createPuid old.routeDist old.ipPrefix = old.puid from rfl, hnil, hwanted] at hresult
      cases hresult
    · rw [wanted_of_bestPath hbest hfamily, if_neg hnot]

theorem Good.safe_of_mirrors_bestPathLost (hmirrors : (s.bestPathLost key).Mirrors) :
    Safe s (.bestPathLost key) := by
  intro old hbest vrf hvrf hfamily himp
  obtain rfl := key_of_bestPath hbest
  obtain ⟨hok, hknown⟩ := hmirrors vrf (by rwa [bestPathLost_eq hbest]) old.ipPrefix
  have hknown := hknown old.routeDist
  rw [wanted_bestPathLost, if_pos ⟨hfamily, rfl⟩] at hknown
  have htable := h.bestPathLost_apply hbest hvrf old.ipPrefix
  rw [if_pos ⟨hfamily, himp, rfl⟩] at htable
  rw [htable] at hok hknown
  exact VrfDest.noNew_of_withdraw (h.settled vrf hvrf old.ipPrefix).quiet hok hknown

/-! ### A new VRF -/

/-- The best paths that a new VRF imports for a prefix. -/
def importedBy (s : State) (vrf : VrfConf) (ipPrefix : IpPrefix) : List VpnPath :=
  (s.bestPaths.filter fun path => path.ipv6 = vrf.ipv6 ∧ vrf.IsInterested path.getRts).filter
    fun path => path.ipPrefix = ipPrefix

variable {ipPrefix : IpPrefix}

omit h in
theorem mem_importedBy :
    path ∈ importedBy s vrf ipPrefix ↔ path ∈ s.bestPaths ∧ path.ipv6 = vrf.ipv6 ∧
      vrf.IsInterested path.getRts ∧ path.ipPrefix = ipPrefix := by
  simp [importedBy]
  tauto

omit h in
/-- The table of a VRF that is added, if it was empty. -/
theorem importAll_apply (vrf : VrfConf) (hempty : s.vrfTables vrf.id ipPrefix = {}) :
    importAllVpnPathsToVrf s.bestPaths vrf s.vrfTables vrf.id ipPrefix =
      { newPathList := (importedBy s vrf ipPrefix).map (·.toVrf false)
        queued := !(importedBy s vrf ipPrefix).isEmpty } := by
  rw [importAllVpnPathsToVrf, foldl_importAll_apply, if_pos rfl, hempty]
  exact foldl_importVpnPath (importedBy s vrf ipPrefix) [] false

/-- The paths with one `puid` that a new VRF imports. -/
theorem Good.ofKey_importAll (vrf : VrfConf) (rd : RouteDist) (ipPrefix : IpPrefix) :
    ofKey VrfPath.puid (createPuid rd ipPrefix) ((importedBy s vrf ipPrefix).map (·.toVrf false)) =
      (((s.bestPath ⟨vrf.ipv6, createPuid rd ipPrefix⟩).filter fun path =>
        vrf.IsInterested path.getRts).map (·.toVrf false)).toList := by
  have hkey := ofKey_eq_toList h.keys ⟨vrf.ipv6, createPuid rd ipPrefix⟩
  have hfilter :
      (importedBy s vrf ipPrefix).filter (fun path => path.puid = createPuid rd ipPrefix) =
      (ofKey VpnPath.key ⟨vrf.ipv6, createPuid rd ipPrefix⟩ s.bestPaths).filter fun path =>
        vrf.IsInterested path.getRts := by
    simp only [importedBy, ofKey, filter_filter, VpnPath.key, VpnPath.puid, VpnKey.mk.injEq,
      createPuid_inj]
    grind
  rw [ofKey, filter_map]
  refine (congrArg (List.map (·.toVrf false)) hfilter).trans ?_
  rw [hkey, ← Option.toList_filter, ← Option.toList_map]
  rfl

/-- The destination of a new VRF is in order. -/
theorem Good.orderly_importAll (vrf : VrfConf) (ipPrefix : IpPrefix) (queued : Bool) :
    (VrfDest.mk [] ((importedBy s vrf ipPrefix).map (·.toVrf false)) [] queued).Orderly := by
  refine ⟨by simp, fun puid => ?_, by simp, by simp, fun vrfPath hmem => ?_⟩
  · by_cases hp : ∃ rd, createPuid rd ipPrefix = puid
    · obtain ⟨rd, rfl⟩ := hp
      rw [h.ofKey_importAll]
      exact Option.length_toList_le
    · have hnil : ofKey VrfPath.puid puid
          ((importedBy s vrf ipPrefix).map (·.toVrf false)) = [] := by
        refine filter_eq_nil_iff.2 fun vrfPath hmem heq => hp ?_
        obtain ⟨path, hpath, rfl⟩ := mem_map.1 hmem
        have hpuid : path.puid = puid := of_decide_eq_true heq
        refine ⟨path.routeDist, ?_⟩
        rw [← hpuid, ← (mem_importedBy.1 hpath).2.2.2]
        rfl
      rw [hnil]
      simp
  · obtain ⟨path, hpath, rfl⟩ := mem_map.1 hmem
    exact (mem_importedBy.1 hpath).2.2.1.attributes

omit h in
theorem addVrf_eq (hid : vrf.id ∉ s.vrfs.map VrfConf.id) : s.addVrf vrf = { s with
    vrfs := s.vrfs ++ [vrf]
    vrfTables := importAllVpnPathsToVrf s.bestPaths vrf s.vrfTables } := if_neg hid

omit h in
theorem wanted_addVrf (s : State) (vrf vrf' : VrfConf) (puid : Puid) :
    (s.addVrf vrf).wanted vrf' puid = s.wanted vrf' puid := by
  unfold State.addVrf
  split <;> rfl

omit h in
/-- A VRF that imports none of its own exports wants the best paths with its targets. -/
theorem wanted_of_safe_addVrf (hsafe : Safe s (.addVrf vrf)) (hid : vrf.id ∉ s.vrfs.map VrfConf.id)
    (puid : Puid) :
    s.wanted vrf puid = ((s.bestPath ⟨vrf.ipv6, puid⟩).filter fun path =>
      vrf.IsInterested path.getRts).map VpnPath.content := by
  cases hbest : s.bestPath ⟨vrf.ipv6, puid⟩ with
  | none => exact wanted_eq_none hbest
  | some path =>
    have hfamily := congrArg VpnKey.ipv6 (key_of_bestPath hbest)
    have hexp := hsafe hid path (mem_of_find?_eq_some hbest) hfamily
    have himp : vrf.Imports path ↔ vrf.IsInterested path.getRts := and_iff_left_of_imp hexp
    simp [State.wanted, hbest, Option.filter_some, himp]

theorem Good.addVrf (hsafe : Safe s (.addVrf vrf)) : Good (s.addVrf vrf) := by
  by_cases hid : vrf.id ∈ s.vrfs.map VrfConf.id
  · rwa [State.addVrf, if_pos hid]
  have hstate := addVrf_eq hid
  have hother : ∀ id ipPrefix, id ≠ vrf.id →
      (s.addVrf vrf).vrfTables id ipPrefix = s.vrfTables id ipPrefix := by
    intro id ipPrefix hne
    rw [hstate]
    exact (foldl_importAll_apply _ vrf _ id ipPrefix).trans (if_neg hne)
  refine ⟨?_, by rw [hstate]; exact h.keys, fun id hnot ipPrefix => ?_,
    fun vrf' hvrf' ipPrefix => ?_⟩
  · rw [hstate, map_append]
    exact h.ids.append (nodup_singleton _) (by simpa using hid)
  · rw [hstate, map_append, mem_append, not_or] at hnot
    rw [hother id ipPrefix (by simpa using hnot.2)]
    exact h.fresh id hnot.1 ipPrefix
  · rw [hstate] at hvrf'
    rcases mem_append.1 hvrf' with hvrf' | hvrf'
    · have hne : vrf'.id ≠ vrf.id := fun heq => hid (heq ▸ mem_map_of_mem hvrf')
      exact (h.settled vrf' hvrf' ipPrefix).of_eq (hother vrf'.id ipPrefix hne) fun rd =>
        wanted_addVrf ..
    · obtain rfl := mem_singleton.1 hvrf'
      have htable := (congrArg (fun s => s.vrfTables vrf'.id ipPrefix) hstate).trans
        (importAll_apply vrf' (h.fresh _ hid ipPrefix))
      refine .of_dest htable (h.orderly_importAll vrf' ipPrefix _) ?_ fun rd => ?_
      · intro hqueued
        simpa using hqueued
      · rw [wanted_addVrf, wanted_of_safe_addVrf hsafe hid, VrfDest.result_of_new,
          h.ofKey_importAll, ← Option.toList_map, Option.map_map]
        rfl

theorem Good.safe_of_mirrors_addVrf (hmirrors : (s.addVrf vrf).Mirrors) : Safe s (.addVrf vrf) := by
  intro hid path hpath hfamily hrt hexp
  have hstate := addVrf_eq hid
  obtain ⟨hok, hknown⟩ := hmirrors vrf (by rw [hstate]; simp) path.ipPrefix
  have hknown := hknown path.routeDist
  have htable := (congrArg (fun s => s.vrfTables vrf.id path.ipPrefix) hstate).trans
    (importAll_apply vrf (h.fresh _ hid path.ipPrefix))
  have hbest : s.bestPath ⟨vrf.ipv6, path.puid⟩ = some path := by
    rw [← hfamily]
    exact (mem_iff_find? h.keys).1 hpath
  have hwanted : s.wanted vrf path.puid = none := by
    rw [wanted_eq_some hbest, if_neg fun himp => himp.2 hexp]
  have hmem := mem_importedBy.2 ⟨hpath, hfamily, hrt, rfl⟩
  have hqueued : ((s.addVrf vrf).vrfTables vrf.id path.ipPrefix).queued = true := by
    rw [htable]
    simpa using ne_nil_of_mem hmem
  obtain ⟨paths, hsuffix⟩ := VrfDest.process_suffix hqueued hok path.puid
  rw [wanted_addVrf, show createPuid path.routeDist path.ipPrefix = path.puid from rfl, hwanted,
    Option.toList_none, map_eq_nil_iff, hsuffix] at hknown
  have hnone := (append_eq_nil_iff.1 hknown).2
  rw [htable] at hnone
  have hin : path.toVrf false ∈ ofKey VrfPath.puid path.puid
      ((importedBy s vrf path.ipPrefix).map (·.toVrf false)) :=
    mem_ofKey.2 ⟨mem_map_of_mem hmem, rfl⟩
  exact ne_nil_of_mem hin hnone

/-! ### Processing -/

theorem Good.processDest (id : VrfId) (ipPrefix : IpPrefix) : Good (s.processDest id ipPrefix) := by
  have htable : ∀ id' ipPrefix', (s.processDest id ipPrefix).vrfTables id' ipPrefix' =
      if id' = id ∧ ipPrefix' = ipPrefix then (s.vrfTables id' ipPrefix').process.2
      else s.vrfTables id' ipPrefix' := by
    simp only [State.processDest, Function.update_apply]
    grind
  refine ⟨h.ids, h.keys, fun id' hid' ipPrefix' => ?_, fun vrf hvrf ipPrefix' => ?_⟩
  · rw [htable, h.fresh id' hid' ipPrefix']
    split <;> rfl
  · have hsettled := h.settled vrf hvrf ipPrefix'
    by_cases hdest : vrf.id = id ∧ ipPrefix' = ipPrefix
    · obtain ⟨known, hprocess, hknown⟩ := hsettled.orderly.process_eq hsettled.quiet
      have hnew :=
        ((htable vrf.id ipPrefix').trans (if_pos hdest)).trans (congrArg Prod.snd hprocess)
      refine .of_dest hnew (hsettled.orderly.of_process hknown) (fun _ => ⟨rfl, rfl⟩) fun rd => ?_
      refine Eq.trans ?_ ((congrArg _ (hknown _)).trans (hsettled.result rd))
      simp [VrfDest.result]
    · exact hsettled.of_eq ((htable vrf.id ipPrefix').trans (if_neg hdest)) fun _ => rfl

theorem Good.mirrors_step_iff (event : Event) : (step s event).Mirrors ↔ Safe s event := by
  cases event with
  | newBestPath path =>
    exact ⟨h.safe_of_mirrors_newBestPath, fun hsafe => (h.newBestPath hsafe).mirrors⟩
  | bestPathLost key =>
    exact ⟨h.safe_of_mirrors_bestPathLost, fun hsafe => (h.bestPathLost hsafe).mirrors⟩
  | addVrf vrf => exact ⟨h.safe_of_mirrors_addVrf, fun hsafe => (h.addVrf hsafe).mirrors⟩
  | processDest id ipPrefix => exact iff_of_true (h.processDest id ipPrefix).mirrors trivial

theorem Good.step {event : Event} (hsafe : Safe s event) : Good (step s event) := by
  cases event with
  | newBestPath path => exact h.newBestPath hsafe
  | bestPathLost key => exact h.bestPathLost hsafe
  | addVrf vrf => exact h.addVrf hsafe
  | processDest id ipPrefix => exact h.processDest id ipPrefix

end Step

/-! ## Whole runs -/

theorem run_concat (events : List Event) (event : Event) :
    run (events ++ [event]) = step (run events) event := by
  simp [run]

theorem good_init : Good {} := ⟨by simp, by simp, fun _ _ _ => rfl, by simp⟩

/-- The route distinguisher 65000:n. -/
def routeDist (n : Char) (h : ':' ≠ n) : RouteDist :=
  ⟨"65000".toList, [n], by decide, mt mem_singleton.1 h⟩

def exporter : RouteDist := routeDist '1' (by decide)

/-- A path of a peer for 10.0.0.0/8 with one route target. -/
def peerPath (madeFor rt : Nat) : VpnPath where
  source := some ⟨1, 65001, 1, 1⟩
  ipv6 := false
  routeDist := exporter
  ipPrefix := "10.0.0.0/8".toList
  labelList := [100]
  nexthop := [192, 0, 2, 1]
  pathattrMap := [⟨madeFor, .extendedCommunities [.twoOctetAs 0 2 65000 rt]⟩]

def importerConf : VrfConf := ⟨routeDist '2' (by decide), false, [.ofAs 65000 100]⟩

end BebaCtrl.Bgp.VrfImport
