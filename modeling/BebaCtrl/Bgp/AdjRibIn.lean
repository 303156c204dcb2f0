import BebaCtrl.Bgp.Table
import BebaCtrl.Bgp.VpnKeys

/-!
# The Adj-RIB-In of a peer

A peer keeps the routes it received with a flag that says whether the in-filters block them, so that
a change of the filters can be followed by withdrawals and by paths that were held back. The routes
stay when the session is lost, while the global tables drop what they had of the peer.
-/

namespace BebaCtrl.Bgp

open List Function Destination AList

/-! ## Prefix filters -/

/-- A block of addresses; the number of bytes tells the version. -/
structure IPNetwork where
  addr : Bytes
  prefixlen : Nat
  deriving DecidableEq, Repr

/-- `net in network` -/
def IPNetwork.contains (network net : IPNetwork) : Bool :=
  let hostBits := 8 * network.addr.length - network.prefixlen
  net.addr.length == network.addr.length && decide (network.prefixlen ≤ net.prefixlen) &&
    beDecode net.addr >>> hostBits == beDecode network.addr >>> hostBits

inductive FilterPolicy where
  | deny
  | permit
  deriving DecidableEq, Repr

/-- A filter for routes of one of the unicast families. -/
structure PrefixFilter where
  network : IPNetwork
  policy : FilterPolicy
  ge : Option Nat := none
  le : Option Nat := none
  /-- is it an `Ipv6PrefixFilter`? -/
  ipv6 : Bool := false
  deriving DecidableEq, Repr

/-- A bound of 0 never matches. -/
def PrefixFilter.evaluate (f : PrefixFilter) (length : Nat) (addr : Bytes) : FilterPolicy × Bool :=
  (f.policy, f.network.contains ⟨addr, length⟩ &&
    match f.ge, f.le with
    | none, none => true
    | none, some le => le != 0 && decide (length ≤ le)
    | some ge, none => ge != 0 && decide (ge ≤ length)
    | some ge, some le => ge != 0 && le != 0 && decide (ge ≤ length) && decide (length ≤ le))

/-- The length and the address of a route of the family of the filter. -/
def PrefixFilter.routeOf (f : PrefixFilter) : Nlri → Option (Nat × Bytes)
  | .ip length addr => if f.ipv6 then none else some (length, addr)
  | .ip6 length addr => if f.ipv6 then some (length, addr) else none
  | _ => none

/-- Is the route blocked? The first filter that matches decides. -/
def applyFilter : List PrefixFilter → Nlri → Bool
  | [], _ => false
  | f :: filters, nlri =>
    match f.routeOf nlri with
    | none => applyFilter filters nlri
    | some (length, addr) =>
      match f.evaluate length addr with
      | (.permit, true) => false
      | (.deny, true) => true
      | (_, false) => applyFilter filters nlri

def Nlri.IsUnicast : Nlri → Prop
  | .ip _ _ | .ip6 _ _ => True
  | _ => False

variable {nlri : Nlri}

theorem isUnicast_of_applyFilter {filters : List PrefixFilter}
    (h : applyFilter filters nlri = true) : nlri.IsUnicast := by
  induction filters with
  | nil => cases h
  | cons f filters ih =>
    cases nlri with
    | ip | ip6 => trivial
    | _ => exact ih h

/-! ## The peer -/

/-- A neighbor, the AS of the speaker and the texts of IPv6 addresses. -/
structure RibConfig where
  peer : Peer
  localAs : Nat
  ipv6Text : Bytes → List Char

/-- The key of the Adj-RIB-In. No path is made of a route without a text. -/
def RibConfig.nlriStr (cfg : RibConfig) (nlri : Nlri) : List Char :=
  (nlri.formattedNlriStr cfg.ipv6Text).toOption.getD []

abbrev TableKey := Option RouteFamily × List Char

/-- The table of a route and its key there, which is the same text in all tables. -/
def RibConfig.tableKey (cfg : RibConfig) (nlri : Nlri) : TableKey :=
  (nlri.routeFamily, cfg.nlriStr nlri)

/-- Within the family, a unicast route is told by its text. -/
theorem RibConfig.tableKey_unicast {cfg : RibConfig} (hinj : Function.Injective cfg.ipv6Text)
    {nlri route : Nlri} (hu : route.IsUnicast) (h : cfg.tableKey nlri = cfg.tableKey route) :
    nlri = route := by
  have hslash : ∀ n, '/' ∉ Text.decimal n := Text.notMem_decimal (by decide)
  obtain ⟨hfamily, htext⟩ := Prod.mk.inj h
  cases route with
  | ip length addr =>
    cases nlri with
    | ip length' addr' =>
      obtain ⟨haddr, hlength⟩ := (Text.append_cons_inj_back (hslash _) (hslash _)).1 htext
      rw [octetsText_inj (by decide) haddr, Text.decimal_inj.1 hlength]
    | _ => cases hfamily
  | ip6 length addr =>
    cases nlri with
    | ip6 length' addr' =>
      obtain ⟨haddr, hlength⟩ := (Text.append_cons_inj_back (hslash _) (hslash _)).1 htext
      rw [hinj haddr, Text.decimal_inj.1 hlength]
    | _ => cases hfamily
  | _ => exact hu.elim

namespace AdjRibIn

structure ReceivedRoute where
  path : Path
  filtered : Bool
  deriving DecidableEq, Repr

/-- What the peer asks the tables to do. -/
inductive TableCall where
  | learnPath (path : Path)
  | cleanStaleRoutes (versionNum : Nat)
  deriving DecidableEq, Repr

structure RibState where
  inFilters : List PrefixFilter
  adjRibIn : AList fun _ : List Char => ReceivedRoute := ∅
  /-- route targets that wait for the end of the first updates -/
  initRtcNlriPath : Option (List Path) := some []
  versionNum : Nat := 1
  /-- is there a session? -/
  protocol : Bool := false

variable (cfg : RibConfig)

def createPath (versionNum id : Nat) (nlri : Nlri) (pattrs : PathAttrMap) : Path where
  id := id
  source := some cfg.peer
  nlri := nlri
  sourceVersionNum := versionNum
  pathAttrMap := pattrs

def createWithdraw (versionNum id : Nat) (nlri : Nlri) : Path :=
  { createPath cfg versionNum id nlri {} with isWithdraw := true }

/-- Is the announcement used at all? Without AS_PATH or next hop there is an exception instead. -/
def accepts (nlri : Nlri) (pattrs : PathAttrMap) (nexthop : Option Bytes)
    (interestedRts : List RouteTarget) : Bool :=
  let supported := match nlri.routeFamily with
    | some rf => supportedGlobalRf.contains rf
    | none => false
  let noLoop := match pattrs.asPath with
    | some aspath => !hasLocalAs aspath cfg.localAs
    | none => false
  let isVpn := nlri.routeFamily == some rfIPv4VPN || nlri.routeFamily == some rfIPv6VPN
  let interesting := match pattrs.extendedCommunities with
    | some communities => (rtList communities).any fun rt => interestedRts.contains rt
    | none => false
  supported && noLoop && (!isVpn || interesting) && nexthop.isSome

/-- A route of `_extract_and_handle_bgp4_new_paths` or `_extract_and_handle_mpbgp_new_paths`. -/
def handleNewPath (id : Nat) (nlri : Nlri) (pattrs : PathAttrMap) (s : RibState) :
    RibState × List TableCall :=
  let newPath := createPath cfg s.versionNum id nlri pattrs
  let block := applyFilter s.inFilters nlri
  let s := { s with
    adjRibIn := s.adjRibIn.insert (cfg.nlriStr nlri) ⟨newPath, block⟩ }
  if block then (s, [])
  else
    match s.initRtcNlriPath with
    | some paths =>
      if nlri.routeFamily = some rfRTCUC then
        ({ s with initRtcNlriPath := some (paths ++ [newPath]) }, [])
      else (s, [.learnPath newPath])
    | none => (s, [.learnPath newPath])

/-- A route of `_extract_and_handle_bgp4_withdraws` or `_extract_and_handle_mpbgp_withdraws`. -/
def handleWithdraw (id : Nat) (nlri : Nlri) (s : RibState) : RibState × List TableCall :=
  let block := applyFilter s.inFilters nlri
  ({ s with adjRibIn := s.adjRibIn.erase (cfg.nlriStr nlri) },
    if block then [] else [.learnPath (createWithdraw cfg s.versionNum id nlri)])

/-- Withdrawals without routes of the family of route targets. A second time there is nothing to
go through, which is a `TypeError`. -/
def handleEor (s : RibState) : RibState × List TableCall :=
  match s.initRtcNlriPath with
  | some paths => ({ s with initRtcNlriPath := none }, paths.map .learnPath)
  | none => (s, [])

/-- The new state of a received route and the path to be learned, if any. -/
def reevaluate (filters : List PrefixFilter) (received : ReceivedRoute) :
    ReceivedRoute × Option Path :=
  let block := applyFilter filters received.path.nlri
  if block = received.filtered then (received, none)
  else ({ received with filtered := block },
    some (if block then received.path.clone true else received.path))

theorem reevaluate_fst (filters : List PrefixFilter) (received : ReceivedRoute) :
    (reevaluate filters received).1 =
      { received with filtered := applyFilter filters received.path.nlri } := by
  simp only [reevaluate]
  split
  · rename_i heq
    rw [heq]
  · rfl

theorem reevaluate_snd (filters : List PrefixFilter) (received : ReceivedRoute) :
    (reevaluate filters received).2 =
      if applyFilter filters received.path.nlri = received.filtered then none
      else some (if applyFilter filters received.path.nlri then received.path.clone true
        else received.path) := by
  simp only [reevaluate]
  split <;> rfl

def onUpdateRoute (r : RibState × List TableCall) (nlriStr : List Char) :
    RibState × List TableCall :=
  match r.1.adjRibIn.lookup nlriStr with
  | none => r
  | some received =>
    let (received, path) := reevaluate r.1.inFilters received
    ({ r.1 with adjRibIn := r.1.adjRibIn.insert nlriStr received },
      r.2 ++ (path.map TableCall.learnPath).toList)

def onUpdateInFilter (s : RibState) : RibState × List TableCall :=
  s.adjRibIn.keys.foldl onUpdateRoute (s, [])

def setInFilters (filters : List PrefixFilter) (s : RibState) : RibState × List TableCall :=
  onUpdateInFilter { s with inFilters := filters }

def connectionLost (s : RibState) : RibState × List TableCall :=
  if s.protocol then
    ({ s with protocol := false, initRtcNlriPath := some [], versionNum := s.versionNum + 1 },
      [.cleanStaleRoutes (s.versionNum + 1)])
  else (s, [])

/-! ## Runs -/

inductive Event where
  | connectionMade
  /-- A route that an UPDATE announces, with the route targets that are of interest then. -/
  | announce (id : Nat) (nlri : Nlri) (pattrs : PathAttrMap) (nexthop : Option Bytes)
      (interestedRts : List RouteTarget)
  | withdraw (id : Nat) (nlri : Nlri)
  | eor
  | setInFilters (filters : List PrefixFilter)
  | connectionLost
  deriving DecidableEq, Repr

/-- UPDATE messages come only in a session. -/
def step (s : RibState) : Event → RibState × List TableCall
  | .connectionMade => ({ s with protocol := true }, [])
  | .announce id nlri pattrs nexthop interestedRts =>
    if s.protocol ∧ accepts cfg nlri pattrs nexthop interestedRts then
      handleNewPath cfg id nlri pattrs s
    else (s, [])
  | .withdraw id nlri =>
    if s.protocol ∧ nlri.routeFamily ∈ supportedGlobalRf.map some then
      handleWithdraw cfg id nlri s
    else (s, [])
  | .eor => if s.protocol then handleEor s else (s, [])
  | .setInFilters filters => setInFilters filters s
  | .connectionLost => connectionLost s

/-- The state after the events and all calls so far. -/
def run (filters : List PrefixFilter) (events : List Event) : RibState × List TableCall :=
  events.foldl (fun r event => ((step cfg r.1 event).1, r.2 ++ (step cfg r.1 event).2))
    ({ inFilters := filters }, [])

/-- A call and the processing of what it changed. -/
def TableCall.apply (dests : TableKey → Destination) : TableCall → TableKey → Destination
  | .learnPath path =>
    let k := cfg.tableKey path.nlri
    let dest := if path.isWithdraw then (dests k).addWithdraw path else (dests k).addNewPath path
    Function.update dests k dest.merged
  | .cleanStaleRoutes versionNum => fun k => (dests k).cleaned cfg.peer versionNum

def replay (calls : List TableCall) : TableKey → Destination :=
  calls.foldl (TableCall.apply cfg) fun _ => {}

/-- What the peer has announced, by the events alone. -/
structure Announced where
  inFilters : List PrefixFilter
  versionNum : Nat := 1
  session : Bool := false
  routes : TableKey → Option Path := fun _ => none

def Announced.set (a : Announced) (k : TableKey) (route : Option Path) : Announced :=
  { a with routes := Function.update a.routes k route }

def announcedStep (a : Announced) : Event → Announced
  | .connectionMade => { a with session := true }
  | .announce id nlri pattrs _ _ =>
    if a.session then
      a.set (cfg.tableKey nlri) (some (createPath cfg a.versionNum id nlri pattrs))
    else a
  | .withdraw _ nlri => if a.session then a.set (cfg.tableKey nlri) none else a
  | .eor => a
  | .setInFilters filters => { a with inFilters := filters }
  | .connectionLost =>
    if a.session then
      { a with session := false, versionNum := a.versionNum + 1, routes := fun _ => none }
    else a

def announced (filters : List PrefixFilter) (events : List Event) : Announced :=
  events.foldl (announcedStep cfg) { inFilters := filters }

/-- The announced route that is not blocked. -/
def Announced.unblocked (a : Announced) (k : TableKey) : Option Path :=
  (a.routes k).filter fun path => !applyFilter a.inFilters path.nlri

/-- The tables have of the peer what it announced in the current session and the current filters let
through. -/
def Exact (filters : List PrefixFilter) (events : List Event) : Prop :=
  ∀ k, (replay cfg (run cfg filters events).2 k).knownPathList =
    ((announced cfg filters events).unblocked k).toList

/-! ## The tables as a map -/

/-- A call on the path of the peer for each key. -/
def TableCall.applyPath (table : TableKey → Option Path) : TableCall → TableKey → Option Path
  | .learnPath path =>
    Function.update table (cfg.tableKey path.nlri) (if path.isWithdraw then none else some path)
  | .cleanStaleRoutes versionNum => fun k =>
    (table k).filter fun path => ¬Destination.IsOld cfg.peer versionNum path

def TableCall.FromPeer : TableCall → Prop
  | .learnPath path => path.source = some cfg.peer
  | .cleanStaleRoutes _ => True

/-- The destinations hold the paths of the map and nothing else. -/
def Represents (dests : TableKey → Destination) (table : TableKey → Option Path) : Prop :=
  ∀ k, (dests k).pathLists = ((table k).toList, [], []) ∧
    ∀ path ∈ table k, path.source = some cfg.peer

variable {cfg} {path : Path}

/-- A change is merged into lists that hold the path of the same source, or none. -/
theorem pathLists_merged {dest : Destination} {old : Option Path}
    (hlists : dest.pathLists = (old.toList, [], [])) (hold : ∀ p ∈ old, p.source = path.source) :
    (dest.addNewPath path).merged.pathLists = ([path], [], []) ∧
      (dest.addWithdraw path).merged.pathLists = ([], [], []) := by
  obtain ⟨known, new, withdraw, bestPath, reason, sentRoutes⟩ := dest
  obtain ⟨rfl, rfl, rfl⟩ := hlists
  cases old with
  | none =>
    simp [merged, addNewPath, addWithdraw, removeWithdrawals, removeOldPaths, findMatch, pathLists]
  | some old =>
    have hsource : old.source = path.source := hold old rfl
    simp [merged, addNewPath, addWithdraw, removeWithdrawals, removeOldPaths, findMatch, pathLists,
      hsource]

theorem Represents.apply {dests : TableKey → Destination} {table : TableKey → Option Path}
    {call : TableCall} (h : Represents cfg dests table) (hcall : call.FromPeer cfg) :
    Represents cfg (call.apply cfg dests) (call.applyPath cfg table) := by
  intro k
  cases call with
  | cleanStaleRoutes versionNum =>
    obtain ⟨hlists, hsource⟩ := h k
    simp only [pathLists, Prod.mk.injEq] at hlists
    refine ⟨?_, fun path hpath => hsource path (Option.mem_filter_iff.1 hpath).1⟩
    cases htable : table k with
    | none =>
      simp [TableCall.apply, TableCall.applyPath, cleaned, pathLists,
        removeOldPathsFromSource, removeSentRoute, hlists, htable]
    | some path =>
      by_cases hold : Destination.IsOld cfg.peer versionNum path <;>
      simp [TableCall.apply, TableCall.applyPath, cleaned, pathLists, removeOldPathsFromSource,
        removeSentRoute, hlists, htable, Option.filter_some, hold]
  | learnPath path =>
    simp only [TableCall.apply, TableCall.applyPath]
    by_cases hk : k = cfg.tableKey path.nlri
    · subst hk
      obtain ⟨hlists, hsource⟩ := h (cfg.tableKey path.nlri)
      rw [← hcall] at hsource
      rw [update_self, update_self]
      by_cases hw : path.isWithdraw
      · simp only [hw, if_true]
        exact ⟨(pathLists_merged hlists hsource).2, by simp⟩
      · simp only [hw]
        refine ⟨(pathLists_merged hlists hsource).1, ?_⟩
        rintro _ ⟨⟩
        exact hcall
    · rw [update_of_ne hk, update_of_ne hk]
      exact h k

theorem represents_replay {calls : List TableCall} (h : ∀ call ∈ calls, call.FromPeer cfg) :
    Represents cfg (replay cfg calls) (calls.foldl (TableCall.applyPath cfg) fun _ => none) := by
  unfold replay
  induction calls using reverseRecOn with
  | nil => exact fun k => ⟨rfl, by simp⟩
  | append_singleton calls call ih =>
    rw [foldl_concat, foldl_concat]
    exact (ih fun c hc => h c (by simp [hc])).apply (h call (by simp))

/-! ## A change of the filters -/

theorem foldl_onUpdateRoute {keys : List (List Char)} (hnodup : keys.Nodup) (s : RibState)
    (calls : List TableCall) :
    ∃ adjRibIn, keys.foldl onUpdateRoute (s, calls) = ({ s with adjRibIn },
        calls ++ (keys.filterMap fun key => (s.adjRibIn.lookup key).bind fun received =>
          (reevaluate s.inFilters received).2).map TableCall.learnPath) ∧
      ∀ key, adjRibIn.lookup key = if key ∈ keys then
        (s.adjRibIn.lookup key).map fun received => (reevaluate s.inFilters received).1
        else s.adjRibIn.lookup key := by
  induction keys generalizing s calls with
  | nil => exact ⟨s.adjRibIn, by simp, by simp⟩
  | cons key keys ih =>
    obtain ⟨hkey, hnodup⟩ := nodup_cons.1 hnodup
    rw [foldl_cons]
    cases hlookup : s.adjRibIn.lookup key with
    | none =>
      obtain ⟨adjRibIn, heq, hrib⟩ := ih hnodup s calls
      refine ⟨adjRibIn, ?_, fun key' => ?_⟩
      · simp [onUpdateRoute, hlookup, heq]
      · rw [hrib]
        rcases eq_or_ne key' key with rfl | hk
        · simp [hkey, hlookup]
        · simp [hk]
    | some received =>
      obtain ⟨adjRibIn, heq, hrib⟩ := ih hnodup
        { s with adjRibIn := s.adjRibIn.insert key (reevaluate s.inFilters received).1 }
        (calls ++ ((reevaluate s.inFilters received).2.map TableCall.learnPath).toList)
      -- the entries of the other keys are as before
      have hne : ∀ key' ∈ keys, (s.adjRibIn.insert key
          (reevaluate s.inFilters received).1).lookup key' = s.adjRibIn.lookup key' := by
        intro key' hmem
        exact lookup_insert_ne (by rintro rfl; exact hkey hmem)
      refine ⟨adjRibIn, ?_, fun key' => ?_⟩
      · simp only [onUpdateRoute, hlookup, heq]
        rw [filterMap_congr fun key' hmem => by rw [hne key' hmem]]
        cases hre : (reevaluate s.inFilters received).2 <;>
          simp [hlookup, hre]
      · rw [hrib]
        rcases eq_or_ne key' key with rfl | hk
        · simp [hkey, hlookup]
        · simp [hk, lookup_insert_ne]

/-- The paths to be learned after a change of the filters. -/
def changedPaths (filters : List PrefixFilter) (s : RibState) : List Path :=
  s.adjRibIn.keys.filterMap fun key => (s.adjRibIn.lookup key).bind fun received =>
    (reevaluate filters received).2

theorem mem_changedPaths {filters : List PrefixFilter} {s : RibState} :
    path ∈ changedPaths filters s ↔ ∃ key received, s.adjRibIn.lookup key = some received ∧
      (reevaluate filters received).2 = some path := by
  simp only [changedPaths, mem_filterMap, Option.bind_eq_some_iff]
  refine exists_congr fun key => ⟨And.right, fun h => ⟨?_, h⟩⟩
  obtain ⟨received, hkey, -⟩ := h
  exact mem_keys.1 (lookup_isSome.1 (by rw [hkey]; rfl))

theorem setInFilters_eq (filters : List PrefixFilter) (s : RibState) :
    ∃ adjRibIn, setInFilters filters s = ({ s with inFilters := filters, adjRibIn },
        (changedPaths filters s).map TableCall.learnPath) ∧
      ∀ key, adjRibIn.lookup key = (s.adjRibIn.lookup key).map fun received =>
        { received with filtered := applyFilter filters received.path.nlri } := by
  obtain ⟨adjRibIn, heq, hrib⟩ :=
    foldl_onUpdateRoute s.adjRibIn.keys_nodup { s with inFilters := filters } []
  refine ⟨adjRibIn, heq, fun key => ?_⟩
  simp only [hrib, reevaluate_fst]
  by_cases hkey : key ∈ s.adjRibIn.keys
  · rw [if_pos hkey]
  · rw [if_neg hkey, lookup_eq_none.2 (fun h => hkey (mem_keys.1 h))]
    rfl

variable {k : TableKey} {paths : List Path}

theorem foldl_learnPath_of_ne (h : ∀ p ∈ paths, cfg.tableKey p.nlri ≠ k)
    (table : TableKey → Option Path) :
    (paths.map TableCall.learnPath).foldl (TableCall.applyPath cfg) table k = table k := by
  induction paths using reverseRecOn with
  | nil => rfl
  | append_singleton paths last ih =>
    rw [map_append, map_singleton, foldl_concat, TableCall.applyPath,
      update_of_ne (h last (by simp)).symm]
    exact ih fun p hp => h p (by simp [hp])

/-- Paths of which no two have one key are learned independently. -/
theorem foldl_learnPath_of_mem (hmem : path ∈ paths)
    (h : ∀ p ∈ paths, cfg.tableKey p.nlri = cfg.tableKey path.nlri → p = path)
    (table : TableKey → Option Path) :
    (paths.map TableCall.learnPath).foldl (TableCall.applyPath cfg) table
      (cfg.tableKey path.nlri) = if path.isWithdraw then none else some path := by
  induction paths using reverseRecOn with
  | nil => cases hmem
  | append_singleton paths last ih =>
    rw [map_append, map_singleton, foldl_concat, TableCall.applyPath]
    by_cases hlast : cfg.tableKey last.nlri = cfg.tableKey path.nlri
    · obtain rfl := h last (by simp) hlast
      rw [update_self]
    · rw [update_of_ne (Ne.symm hlast)]
      refine ih ?_ fun p hp => h p (by simp [hp])
      rcases mem_append.1 hmem with hmem | hmem
      · exact hmem
      · cases mem_singleton.1 hmem
        exact absurd rfl hlast

/-! ## What is always right -/

/-- The received routes are of the peer and under their own keys, and their flags are right. -/
structure Received (cfg : RibConfig) (s : RibState) : Prop where
  route : ∀ key received, s.adjRibIn.lookup key = some received →
    cfg.nlriStr received.path.nlri = key ∧ received.path.source = some cfg.peer ∧
      received.path.isWithdraw = false ∧
      received.filtered = applyFilter s.inFilters received.path.nlri
  init : ∀ paths, s.initRtcNlriPath = some paths → ∀ path ∈ paths, path.source = some cfg.peer

variable {s : RibState}

section received

section

variable (h : Received cfg s)
include h

/-- Only routes of the unicast families change. -/
theorem isUnicast_of_reevaluate {filters : List PrefixFilter}
    {key : List Char} {received : ReceivedRoute} (hkey : s.adjRibIn.lookup key = some received)
    (hpath : (reevaluate filters received).2 = some path) :
    received.path.nlri.IsUnicast ∧ path.nlri = received.path.nlri ∧
      path.source = some cfg.peer := by
  obtain ⟨-, hsource, -, hflag⟩ := h.route key received hkey
  simp only [reevaluate] at hpath
  by_cases hblock : applyFilter filters received.path.nlri = received.filtered
  · simp [hblock] at hpath
  · rw [if_neg hblock] at hpath
    cases hpath
    refine ⟨?_, by split <;> rfl, by split <;> exact hsource⟩
    cases hb : applyFilter filters received.path.nlri with
    | true => exact isUnicast_of_applyFilter hb
    | false =>
      refine isUnicast_of_applyFilter (hflag.symm.trans ?_)
      grind

theorem Received.insert (path : Path)
    (hsource : path.source = some cfg.peer) (hnew : path.isWithdraw = false) :
    Received cfg { s with
      adjRibIn := s.adjRibIn.insert (cfg.nlriStr path.nlri)
        ⟨path, applyFilter s.inFilters path.nlri⟩ } := by
  refine ⟨fun key received hkey => ?_, h.init⟩
  rcases eq_or_ne key (cfg.nlriStr path.nlri) with rfl | hne
  · rw [lookup_insert] at hkey
    cases hkey
    exact ⟨rfl, hsource, hnew, rfl⟩
  · rw [lookup_insert_ne hne] at hkey
    exact h.route key received hkey

theorem Received.handleNewPath (id : Nat) (nlri : Nlri) (pattrs : PathAttrMap) :
    Received cfg (handleNewPath cfg id nlri pattrs s).1 ∧
      ∀ call ∈ (handleNewPath cfg id nlri pattrs s).2, call.FromPeer cfg := by
  have hinsert := h.insert (createPath cfg s.versionNum id nlri pattrs) rfl rfl
  simp only [AdjRibIn.handleNewPath]
  split
  · exact ⟨hinsert, by simp⟩
  split
  · rename_i paths hpaths
    split
    · refine ⟨⟨hinsert.route, ?_⟩, by simp⟩
      rintro _ ⟨⟩ path hpath
      rcases mem_append.1 hpath with hpath | hpath
      · exact h.init paths hpaths path hpath
      · cases mem_singleton.1 hpath
        rfl
    · exact ⟨hinsert, by simp [TableCall.FromPeer, createPath]⟩
  · exact ⟨hinsert, by simp [TableCall.FromPeer, createPath]⟩

theorem Received.handleWithdraw (id : Nat) (nlri : Nlri) :
    Received cfg (handleWithdraw cfg id nlri s).1 ∧
      ∀ call ∈ (handleWithdraw cfg id nlri s).2, call.FromPeer cfg := by
  refine ⟨⟨fun key received hkey => ?_, h.init⟩, ?_⟩
  · rcases eq_or_ne key (cfg.nlriStr nlri) with rfl | hne
    · simp [AdjRibIn.handleWithdraw] at hkey
    · refine h.route key received ?_
      simpa [AdjRibIn.handleWithdraw, lookup_erase_ne hne] using hkey
  · simp only [AdjRibIn.handleWithdraw]
    split <;> simp [TableCall.FromPeer, createWithdraw, createPath]

theorem Received.setInFilters (filters : List PrefixFilter) :
    Received cfg (setInFilters filters s).1 ∧
      ∀ call ∈ (setInFilters filters s).2, call.FromPeer cfg := by
  obtain ⟨adjRibIn, heq, hrib⟩ := setInFilters_eq filters s
  rw [heq]
  refine ⟨⟨fun key received hkey => ?_, h.init⟩, fun call hcall => ?_⟩
  · rw [hrib, Option.map_eq_some_iff] at hkey
    obtain ⟨old, hold, rfl⟩ := hkey
    obtain ⟨hstr, hsource, hnew, -⟩ := h.route key old hold
    exact ⟨hstr, hsource, hnew, rfl⟩
  · obtain ⟨path, hpath, rfl⟩ := mem_map.1 hcall
    obtain ⟨key, received, hkey, hpath⟩ := mem_changedPaths.1 hpath
    exact (isUnicast_of_reevaluate h hkey hpath).2.2

theorem received_step (event : Event) :
    Received cfg (step cfg s event).1 ∧ ∀ call ∈ (step cfg s event).2, call.FromPeer cfg := by
  cases event with
  | connectionMade => exact ⟨⟨h.route, h.init⟩, by simp [step]⟩
  | announce id nlri pattrs nexthop interestedRts =>
    simp only [step]
    split
    · exact h.handleNewPath id nlri pattrs
    · exact ⟨h, by simp⟩
  | withdraw id nlri =>
    simp only [step]
    split
    · exact h.handleWithdraw id nlri
    · exact ⟨h, by simp⟩
  | eor =>
    simp only [step, handleEor]
    split
    · split
      · rename_i paths hpaths
        exact ⟨⟨h.route, by simp⟩, by simpa [TableCall.FromPeer] using h.init paths hpaths⟩
      · exact ⟨h, by simp⟩
    · exact ⟨h, by simp⟩
  | setInFilters filters => exact h.setInFilters filters
  | connectionLost =>
    simp only [step, connectionLost]
    split
    · exact ⟨⟨h.route, by simp⟩, by simp [TableCall.FromPeer]⟩
    · exact ⟨h, by simp⟩

end

end received

/-- What is received for a route, unless another route has taken its place. -/
def RibState.received (cfg : RibConfig) (s : RibState) (nlri : Nlri) : Option ReceivedRoute :=
  (s.adjRibIn.lookup (cfg.nlriStr nlri)).filter fun received => received.path.nlri = nlri

theorem received_eq_some {received : ReceivedRoute} : s.received cfg nlri = some received ↔
    s.adjRibIn.lookup (cfg.nlriStr nlri) = some received ∧ received.path.nlri = nlri := by
  simp [RibState.received, Option.filter_eq_some_iff]

/-- What the paths of the peer in the tables become. -/
def tableStep (cfg : RibConfig) (s : RibState) (table : TableKey → Option Path) (event : Event) :
    TableKey → Option Path :=
  (step cfg s event).2.foldl (TableCall.applyPath cfg) table

section

variable (h : Received cfg s) (filters : List PrefixFilter) (table : TableKey → Option Path)
include h

/-- The table after new filters, for a route that they can block. -/
theorem tableStep_setInFilters_unicast (hinj : Injective cfg.ipv6Text) (hu : nlri.IsUnicast) :
    tableStep cfg s table (.setInFilters filters) (cfg.tableKey nlri) =
      match s.received cfg nlri with
      | none => table (cfg.tableKey nlri)
      | some received =>
        if applyFilter filters nlri = received.filtered then
          table (cfg.tableKey nlri)
        else if applyFilter filters nlri then none else some received.path := by
  obtain ⟨adjRibIn, heq, -⟩ := setInFilters_eq filters s
  simp only [tableStep, step, heq]
  -- a learned path for this route comes from the entry of this route
  have horigin : ∀ path ∈ changedPaths filters s, cfg.tableKey path.nlri = cfg.tableKey nlri →
      (s.received cfg nlri).bind (fun received => (reevaluate filters received).2) = some path := by
    intro path hpath hk
    obtain ⟨key, received, hkey, hpath⟩ := mem_changedPaths.1 hpath
    have hnlri := (isUnicast_of_reevaluate h hkey hpath).2.1.symm.trans
      (cfg.tableKey_unicast hinj hu hk)
    obtain rfl := (h.route key received hkey).1
    rw [hnlri] at hkey
    rw [received_eq_some.2 ⟨hkey, hnlri⟩]
    exact hpath
  cases hlookup : s.received cfg nlri with
  | none =>
    rw [hlookup] at horigin
    exact foldl_learnPath_of_ne (fun path hpath hk => nomatch horigin path hpath hk) table
  | some received =>
    rw [hlookup, Option.bind_some] at horigin
    obtain ⟨hkey, hnlri⟩ := received_eq_some.1 hlookup
    obtain ⟨-, -, hnew, -⟩ := h.route _ received hkey
    have hsnd := reevaluate_snd filters received
    cases hre : (reevaluate filters received).2 with
    | none =>
      rw [hre] at hsnd horigin
      rw [foldl_learnPath_of_ne (fun path hpath hk => nomatch horigin path hpath hk) table]
      grind
    | some path =>
      obtain ⟨-, hpath, -⟩ := isUnicast_of_reevaluate h hkey hre
      rw [hnlri] at hpath
      have hlearned := foldl_learnPath_of_mem (mem_changedPaths.2 ⟨_, received, hkey, hre⟩)
        (fun p hp hk => Option.some.inj ((horigin p hp (hpath ▸ hk)).symm.trans hre)) table
      rw [hpath] at hlearned
      grind [Path.clone]

theorem tableStep_setInFilters_of_ne (hk : ∀ nlri : Nlri, nlri.IsUnicast → cfg.tableKey nlri ≠ k) :
    tableStep cfg s table (.setInFilters filters) k = table k := by
  obtain ⟨adjRibIn, heq, -⟩ := setInFilters_eq filters s
  simp only [tableStep, step, heq]
  refine foldl_learnPath_of_ne (fun path hpath => ?_) table
  obtain ⟨key, received, hkey, hpath⟩ := mem_changedPaths.1 hpath
  obtain ⟨hu, hnlri, -⟩ := isUnicast_of_reevaluate h hkey hpath
  rw [hnlri]
  exact hk _ hu

end

/-! ## When the tables are right -/

/-- The peer, its paths in the tables and what was announced agree. -/
structure Consistent (cfg : RibConfig) (s : RibState) (table : TableKey → Option Path)
    (a : Announced) : Prop where
  received : Received cfg s
  texts : Injective cfg.ipv6Text
  inFilters : a.inFilters = s.inFilters
  versionNum : a.versionNum = s.versionNum
  session : a.session = s.protocol
  exact : ∀ k, table k = a.unblocked k
  route : ∀ k path, a.routes k = some path → cfg.tableKey path.nlri = k ∧
    path.source = some cfg.peer ∧ path.sourceVersionNum = a.versionNum ∧ a.session = true ∧
    path.nlri.routeFamily ∈ supportedGlobalRf.map some
  /-- no route target came before the end of the first updates -/
  init : ∀ paths, s.initRtcNlriPath = some paths → paths = [] ∧
    ∀ k path, a.routes k = some path → path.nlri.routeFamily ≠ some rfRTCUC

/-- An announcement is one that the peer uses, and not for a route target before the end of the
first updates, unless it is blocked or changes nothing. New filters find in the Adj-RIB-In what is
announced in this session for each route that they unblock, and each announced route that they
block. -/
def Safe (cfg : RibConfig) (s : RibState) (a : Announced) : Event → Prop
  | .announce id nlri pattrs nexthop interestedRts => a.session →
    (accepts cfg nlri pattrs nexthop interestedRts ∧
      ¬(nlri.routeFamily = some rfRTCUC ∧ s.initRtcNlriPath.isSome)) ∨
    applyFilter a.inFilters nlri ∨
    a.routes (cfg.tableKey nlri) = some (createPath cfg a.versionNum id nlri pattrs)
  | .setInFilters filters => ∀ nlri,
    (applyFilter a.inFilters nlri → ¬applyFilter filters nlri →
      (s.received cfg nlri).map ReceivedRoute.path = a.routes (cfg.tableKey nlri)) ∧
    (¬applyFilter a.inFilters nlri → applyFilter filters nlri →
      (a.routes (cfg.tableKey nlri)).isSome → (s.received cfg nlri).isSome)
  | _ => True

variable {a : Announced}

/-- Whether a route is blocked does not depend on which path of its key is announced. -/
theorem unblocked_tableKey (hinj : Injective cfg.ipv6Text)
    (h : ∀ path, a.routes (cfg.tableKey nlri) = some path →
      cfg.tableKey path.nlri = cfg.tableKey nlri) :
    a.unblocked (cfg.tableKey nlri) =
      if applyFilter a.inFilters nlri then none else a.routes (cfg.tableKey nlri) := by
  unfold Announced.unblocked
  cases hroute : a.routes (cfg.tableKey nlri) with
  | none => simp
  | some path =>
    have hblock : ∀ {nlri nlri'}, cfg.tableKey nlri = cfg.tableKey nlri' →
        applyFilter a.inFilters nlri' → applyFilter a.inFilters nlri := by
      intro nlri nlri' hkey hb
      rwa [cfg.tableKey_unicast hinj (isUnicast_of_applyFilter hb) hkey]
    have hiff := Bool.eq_iff_iff.2 ⟨hblock (h path hroute).symm, hblock (h path hroute)⟩
    cases hb : applyFilter a.inFilters nlri <;> simp [Option.filter_some, hiff, hb]

theorem unblocked_set_self (a : Announced) (k : TableKey) (path : Path) :
    (a.set k (some path)).unblocked k =
      if applyFilter a.inFilters path.nlri then none else some path := by
  cases hb : applyFilter a.inFilters path.nlri <;>
    simp [Announced.unblocked, Announced.set, Option.filter_some, hb]

theorem unblocked_set_of_ne {k k' : TableKey} (hne : k' ≠ k) (route : Option Path) :
    (a.set k route).unblocked k' = a.unblocked k' := by
  simp [Announced.unblocked, Announced.set, update_of_ne hne]

theorem routeFamily_of_isUnicast (h : nlri.IsUnicast) :
    nlri.routeFamily ∈ supportedGlobalRf.map some ∧ nlri.routeFamily ≠ some rfRTCUC := by
  cases nlri with
  | ip | ip6 =>
    simp [Nlri.routeFamily, supportedGlobalRf, rfIPv4UC, rfIPv6UC, rfRTCUC, afiIP, afiIP6]
  | _ => exact h.elim

section Step

variable {table : TableKey → Option Path}

theorem Consistent.table_eq (h : Consistent cfg s table a) (nlri : Nlri) :
    table (cfg.tableKey nlri) =
      if applyFilter a.inFilters nlri then none else a.routes (cfg.tableKey nlri) := by
  rw [h.exact, unblocked_tableKey h.texts fun path hpath => (h.route _ path hpath).1]

/-- A change of one entry is right if that entry is. -/
theorem Consistent.exact_update_iff (h : Consistent cfg s table a) (k : TableKey)
    (new route : Option Path) :
    (∀ k', Function.update table k new k' = (a.set k route).unblocked k') ↔
      new = (a.set k route).unblocked k := by
  constructor
  · intro hexact
    simpa using hexact k
  · rintro rfl k'
    rcases eq_or_ne k' k with rfl | hne
    · rw [update_self]
    · rw [update_of_ne hne, unblocked_set_of_ne hne, h.exact]

/-- An announcement that leaves the table as it is. -/
theorem Consistent.exact_set_iff (h : Consistent cfg s table a) (path : Path) :
    (∀ k, table k = (a.set (cfg.tableKey path.nlri) (some path)).unblocked k) ↔
      applyFilter a.inFilters path.nlri ∨ a.routes (cfg.tableKey path.nlri) = some path := by
  have hupdate := h.exact_update_iff (cfg.tableKey path.nlri) (table (cfg.tableKey path.nlri))
    (some path)
  rw [update_eq_self] at hupdate
  rw [hupdate, unblocked_set_self, h.table_eq]
  cases applyFilter a.inFilters path.nlri <;> simp

/-- What else has to agree after an announcement or a withdrawal. -/
theorem Consistent.set (h : Consistent cfg s table a)
    {adjRibIn : AList fun _ : List Char => ReceivedRoute}
    {table' : TableKey → Option Path} {route : Option Path}
    (hroute : ∀ path ∈ route, path.nlri = nlri ∧ path.source = some cfg.peer ∧
      path.sourceVersionNum = a.versionNum ∧ a.session = true)
    (hrf : nlri.routeFamily ∈ supportedGlobalRf.map some)
    (hrtc : nlri.routeFamily = some rfRTCUC → route = none ∨ s.initRtcNlriPath = none)
    (hreceived : Received cfg { s with adjRibIn })
    (hexact : ∀ k, table' k = (a.set (cfg.tableKey nlri) route).unblocked k) :
    Consistent cfg { s with adjRibIn } table' (a.set (cfg.tableKey nlri) route) := by
  refine ⟨hreceived, h.texts, h.inFilters, h.versionNum, h.session, hexact, fun k path hpath => ?_,
    fun paths hpaths => ⟨(h.init paths hpaths).1, fun k path hpath => ?_⟩⟩
  · have hold := h.route k path
    simp only [Announced.set, update_apply] at hpath ⊢
    grind
  · have hold := (h.init paths hpaths).2 k path
    simp only [Announced.set, update_apply] at hpath
    grind

variable {pattrs : PathAttrMap} {nexthop : Option Bytes} {interestedRts : List RouteTarget}

theorem accepts_routeFamily (h : accepts cfg nlri pattrs nexthop interestedRts = true) :
    nlri.routeFamily ∈ supportedGlobalRf.map some := by
  simp only [accepts, Bool.and_eq_true] at h
  obtain ⟨⟨⟨h, -⟩, -⟩, -⟩ := h
  split at h
  · rename_i rf heq
    rw [heq, mem_map]
    exact ⟨rf, by simpa using h, rfl⟩
  · cases h

/-- An announcement that the peer uses and that does not wait. -/
theorem handleNewPath_eq (id : Nat) (nlri : Nlri) (pattrs : PathAttrMap)
    (h : ¬(nlri.routeFamily = some rfRTCUC ∧ s.initRtcNlriPath.isSome)) :
    handleNewPath cfg id nlri pattrs s =
      ({ s with
          adjRibIn := s.adjRibIn.insert (cfg.nlriStr nlri)
            ⟨createPath cfg s.versionNum id nlri pattrs, applyFilter s.inFilters nlri⟩ },
        if applyFilter s.inFilters nlri then []
        else [.learnPath (createPath cfg s.versionNum id nlri pattrs)]) := by
  simp only [handleNewPath]
  split
  · rfl
  split
  · rename_i paths hpaths
    simpa [hpaths] using h
  · rfl

theorem handleNewPath_calls_of_wait (id : Nat) (pattrs : PathAttrMap)
    (h : nlri.routeFamily = some rfRTCUC ∧ s.initRtcNlriPath.isSome) :
    (handleNewPath cfg id nlri pattrs s).2 = [] := by
  obtain ⟨paths, hpaths⟩ := Option.isSome_iff_exists.1 h.2
  simp only [handleNewPath, hpaths, h.1]
  split <;> rfl

theorem Consistent.exact_announce_iff (h : Consistent cfg s table a) (id : Nat) (nlri : Nlri)
    (pattrs : PathAttrMap) (nexthop : Option Bytes) (interestedRts : List RouteTarget) :
    (∀ k, tableStep cfg s table (.announce id nlri pattrs nexthop interestedRts) k =
      (announcedStep cfg a (.announce id nlri pattrs nexthop interestedRts)).unblocked k) ↔
      Safe cfg s a (.announce id nlri pattrs nexthop interestedRts) := by
  simp only [tableStep, step, announcedStep, Safe]
  cases hs : a.session with
  | false =>
    have hp : s.protocol = false := h.session ▸ hs
    simpa [hp] using h.exact
  | true =>
    have hp : s.protocol = true := h.session ▸ hs
    simp only [hp, if_true, true_and, forall_const]
    have hset := h.exact_set_iff (createPath cfg a.versionNum id nlri pattrs)
    by_cases huse : accepts cfg nlri pattrs nexthop interestedRts = true ∧
        ¬(nlri.routeFamily = some rfRTCUC ∧ s.initRtcNlriPath.isSome)
    · refine iff_of_true (fun k => ?_) (.inl huse)
      rw [if_pos huse.1, handleNewPath_eq id nlri pattrs huse.2, ← h.inFilters, ← h.versionNum]
      cases hb : applyFilter a.inFilters nlri with
      | true => exact hset.2 (.inl hb) k
      | false =>
        refine (h.exact_update_iff _ _ _).2 ?_ k
        exact ((unblocked_set_self ..).trans (if_neg (ne_true_of_eq_false hb))).symm
    · rw [or_iff_right huse]
      refine Iff.trans (forall_congr' fun k => ?_) hset
      split
      · rename_i haccepts
        rw [handleNewPath_calls_of_wait id pattrs (not_not.1 fun hw => huse ⟨haccepts, hw⟩)]
        rfl
      · rfl

theorem set_eq_self {route : Option Path} (h : a.routes k = route) : a.set k route = a := by
  rw [Announced.set, ← h, update_eq_self]

theorem Consistent.announce (h : Consistent cfg s table a) {id : Nat}
    (hsafe : Safe cfg s a (.announce id nlri pattrs nexthop interestedRts)) :
    Consistent cfg (step cfg s (.announce id nlri pattrs nexthop interestedRts)).1
      (tableStep cfg s table (.announce id nlri pattrs nexthop interestedRts))
      (announcedStep cfg a (.announce id nlri pattrs nexthop interestedRts)) := by
  have hreceived := (received_step h.received
    (.announce id nlri pattrs nexthop interestedRts)).1
  have hexact := (h.exact_announce_iff id nlri pattrs nexthop interestedRts).2 hsafe
  cases hs : a.session with
  | false =>
    have hp : s.protocol = false := h.session ▸ hs
    simpa [tableStep, step, announcedStep, hp, hs] using h
  | true =>
    have hp : s.protocol = true := h.session ▸ hs
    by_cases haccepts : accepts cfg nlri pattrs nexthop interestedRts = true
    · -- a route target that waits is not safe, since it is not announced yet
      have hnow : ¬(nlri.routeFamily = some rfRTCUC ∧ s.initRtcNlriPath.isSome) := by
        rintro ⟨hrtc, hinit⟩
        obtain ⟨paths, hpaths⟩ := Option.isSome_iff_exists.1 hinit
        rcases hsafe hs with ⟨-, hnow⟩ | hb | hroute
        · exact hnow ⟨hrtc, hinit⟩
        · exact (routeFamily_of_isUnicast (isUnicast_of_applyFilter hb)).2 hrtc
        · exact (h.init paths hpaths).2 _ _ hroute hrtc
      have hstep : step cfg s (.announce id nlri pattrs nexthop interestedRts) =
          handleNewPath cfg id nlri pattrs s := by
        simp [step, hp, haccepts]
      simp only [tableStep, hstep, handleNewPath_eq id nlri pattrs hnow, announcedStep, hs, if_true]
        at hreceived hexact ⊢
      exact h.set (by rintro _ ⟨⟩; exact ⟨rfl, rfl, rfl, hs⟩) (accepts_routeFamily haccepts)
        (fun hrtc => .inr (by simpa using not_and.1 hnow hrtc)) hreceived hexact
    · have hstep : step cfg s (.announce id nlri pattrs nexthop interestedRts) = (s, []) := by
        simp [step, haccepts]
      simp only [tableStep, hstep, announcedStep, hs, if_true, foldl_nil] at hexact ⊢
      rcases hsafe hs with ⟨haccepts', -⟩ | hb | hroute
      · exact absurd haccepts' haccepts
      · have hrf := routeFamily_of_isUnicast (isUnicast_of_applyFilter hb)
        exact h.set (by rintro _ ⟨⟩; exact ⟨rfl, rfl, rfl, hs⟩) hrf.1
          (fun hrtc => absurd hrtc hrf.2) h.received hexact
      · rwa [set_eq_self hroute]

/-! ### The other events -/

section

variable (h : Consistent cfg s table a)
include h

theorem Consistent.withdraw (id : Nat) (nlri : Nlri) :
    Consistent cfg (step cfg s (.withdraw id nlri)).1 (tableStep cfg s table (.withdraw id nlri))
      (announcedStep cfg a (.withdraw id nlri)) := by
  have hreceived := (received_step h.received (.withdraw id nlri)).1
  cases hs : a.session with
  | false =>
    have hp : s.protocol = false := h.session ▸ hs
    simpa [tableStep, step, announcedStep, hp, hs] using h
  | true =>
    have hp : s.protocol = true := h.session ▸ hs
    simp only [tableStep, step, announcedStep, hs, hp, true_and, if_true] at hreceived ⊢
    split at hreceived
    · rename_i hrf
      rw [if_pos hrf]
      have htable : (handleWithdraw cfg id nlri s).2.foldl (TableCall.applyPath cfg) table =
          Function.update table (cfg.tableKey nlri) none := by
        simp only [handleWithdraw]
        split
        · rename_i hb
          rw [← h.inFilters] at hb
          rw [foldl_nil, eq_comm, update_eq_self_iff, h.table_eq, if_pos hb]
        · rfl
      have hnone : (a.set (cfg.tableKey nlri) none).unblocked (cfg.tableKey nlri) = none := by
        simp [Announced.unblocked, Announced.set]
      rw [htable]
      exact h.set (by simp) hrf (fun _ => .inl rfl) hreceived
        ((h.exact_update_iff _ none none).2 hnone.symm)
    · rename_i hrf
      -- nothing of another family is announced
      have hnone : a.routes (cfg.tableKey nlri) = none := by
        by_contra hne
        obtain ⟨path, hpath⟩ := Option.ne_none_iff_exists'.1 hne
        obtain ⟨hk, -, -, -, hrf'⟩ := h.route _ path hpath
        exact hrf ((show path.nlri.routeFamily = nlri.routeFamily from congrArg Prod.fst hk) ▸ hrf')
      rw [if_neg hrf, set_eq_self hnone]
      exact h

theorem Consistent.connectionLost :
    Consistent cfg (step cfg s .connectionLost).1 (tableStep cfg s table .connectionLost)
      (announcedStep cfg a .connectionLost) := by
  have hreceived := (received_step h.received .connectionLost).1
  simp only [tableStep, step, announcedStep, AdjRibIn.connectionLost, h.session] at hreceived ⊢
  split at hreceived
  · rename_i hp
    have htable : ∀ k, TableCall.applyPath cfg table (.cleanStaleRoutes (s.versionNum + 1)) k =
        none := by
      intro k
      simp only [TableCall.applyPath, Option.filter_eq_none_iff]
      intro path hpath
      rw [h.exact] at hpath
      obtain ⟨-, hsource, hversion, -⟩ := h.route k path (Option.mem_filter_iff.1 hpath).1
      have hold : Destination.IsOld cfg.peer (s.versionNum + 1) path :=
        ⟨hsource, by rw [hversion, h.versionNum]; omega⟩
      simpa using hold
    rw [if_pos hp, if_pos hp]
    exact ⟨hreceived, h.texts, h.inFilters, by simp [h.versionNum], rfl, htable, by simp, by simp⟩
  · rename_i hp
    rw [if_neg hp, if_neg hp]
    exact h

theorem Consistent.eor :
    Consistent cfg (step cfg s .eor).1 (tableStep cfg s table .eor) (announcedStep cfg a .eor) := by
  simp only [tableStep, step, announcedStep]
  split
  · simp only [handleEor]
    split
    · rename_i paths hpaths
      rw [(h.init paths hpaths).1]
      exact ⟨⟨h.received.route, by simp⟩, h.texts, h.inFilters, h.versionNum, h.session, h.exact,
        h.route, by simp⟩
    · exact h
  · exact h

theorem Consistent.connectionMade :
    Consistent cfg (step cfg s .connectionMade).1 (tableStep cfg s table .connectionMade)
      (announcedStep cfg a .connectionMade) := by
  refine ⟨⟨h.received.route, h.received.init⟩, h.texts, h.inFilters, h.versionNum, rfl, h.exact,
    fun k path hpath => ?_, h.init⟩
  obtain ⟨hk, hsource, hversion, -, hrf⟩ := h.route k path hpath
  exact ⟨hk, hsource, hversion, rfl, hrf⟩

/-- The entry of one unicast route after a change of the filters. -/
theorem Consistent.setInFilters_unicast_iff (filters : List PrefixFilter) {nlri : Nlri}
    (hu : nlri.IsUnicast) :
    tableStep cfg s table (.setInFilters filters) (cfg.tableKey nlri) =
        (announcedStep cfg a (.setInFilters filters)).unblocked (cfg.tableKey nlri) ↔
      (applyFilter a.inFilters nlri → ¬applyFilter filters nlri →
        (s.received cfg nlri).map ReceivedRoute.path = a.routes (cfg.tableKey nlri)) ∧
      (¬applyFilter a.inFilters nlri → applyFilter filters nlri →
        (a.routes (cfg.tableKey nlri)).isSome → (s.received cfg nlri).isSome) := by
  have hkey : (announcedStep cfg a (.setInFilters filters)).unblocked (cfg.tableKey nlri) =
      if applyFilter filters nlri then none else a.routes (cfg.tableKey nlri) :=
    unblocked_tableKey h.texts fun path hpath => (h.route _ path hpath).1
  have htable := h.table_eq nlri
  rw [tableStep_setInFilters_unicast h.received filters table h.texts hu, hkey]
  cases hlookup : s.received cfg nlri with
  | none =>
    -- what is not received stays in the table as it is
    cases hroute : a.routes (cfg.tableKey nlri) <;> rw [hroute] at htable <;> grind
  | some received =>
    obtain ⟨hstr, hnlri⟩ := received_eq_some.1 hlookup
    have hflag := (h.received.route _ received hstr).2.2.2
    rw [hnlri, ← h.inFilters] at hflag
    grind

theorem Consistent.exact_setInFilters_iff (filters : List PrefixFilter) :
    (∀ k, tableStep cfg s table (.setInFilters filters) k =
      (announcedStep cfg a (.setInFilters filters)).unblocked k) ↔
      Safe cfg s a (.setInFilters filters) := by
  have hunicast {nlri : Nlri} (hu : nlri.IsUnicast) := h.setInFilters_unicast_iff filters hu
  constructor
  · intro hexact nlri
    exact ⟨fun hblock =>
        (hunicast (isUnicast_of_applyFilter hblock)).1 (hexact _) |>.1 hblock,
      fun hpass hblock =>
        (hunicast (isUnicast_of_applyFilter hblock)).1 (hexact _) |>.2 hpass hblock⟩
  · intro hsafe k
    by_cases hk : ∃ nlri : Nlri, nlri.IsUnicast ∧ cfg.tableKey nlri = k
    · obtain ⟨nlri, hu, rfl⟩ := hk
      exact (hunicast hu).2 (hsafe nlri)
    · have hne : ∀ nlri : Nlri, nlri.IsUnicast → cfg.tableKey nlri ≠ k :=
        fun nlri hu heq => hk ⟨nlri, hu, heq⟩
      rw [tableStep_setInFilters_of_ne h.received filters table hne, h.exact]
      simp only [Announced.unblocked, announcedStep]
      cases hroute : a.routes k with
      | none => rfl
      | some path =>
        -- no filter blocks a route of another family
        have hnot : ∀ fs, applyFilter fs path.nlri = false := by
          intro fs
          by_contra hblock
          have hu := isUnicast_of_applyFilter (Bool.eq_true_of_not_eq_false hblock)
          exact hne _ hu (h.route k path hroute).1
        simp [Option.filter_some, hnot]

theorem Consistent.setInFilters {filters : List PrefixFilter}
    (hsafe : Safe cfg s a (.setInFilters filters)) :
    Consistent cfg (step cfg s (.setInFilters filters)).1
      (tableStep cfg s table (.setInFilters filters))
      (announcedStep cfg a (.setInFilters filters)) := by
  have hreceived := (received_step h.received (.setInFilters filters)).1
  obtain ⟨adjRibIn, heq, -⟩ := setInFilters_eq filters s
  have hstate : (step cfg s (.setInFilters filters)).1 =
      { s with inFilters := filters, adjRibIn } := congrArg Prod.fst heq
  rw [hstate] at hreceived ⊢
  exact ⟨hreceived, h.texts, rfl, h.versionNum, h.session,
    (h.exact_setInFilters_iff filters).2 hsafe, h.route, h.init⟩

/-- What is right stays right exactly with safe events. -/
theorem Consistent.exact_step_iff (event : Event) :
    (∀ k, tableStep cfg s table event k = (announcedStep cfg a event).unblocked k) ↔
      Safe cfg s a event := by
  cases event with
  | announce id nlri pattrs nexthop interestedRts =>
    exact h.exact_announce_iff id nlri pattrs nexthop interestedRts
  | setInFilters filters => exact h.exact_setInFilters_iff filters
  | connectionMade => exact iff_of_true h.connectionMade.exact trivial
  | withdraw id nlri => exact iff_of_true (h.withdraw id nlri).exact trivial
  | eor => exact iff_of_true h.eor.exact trivial
  | connectionLost => exact iff_of_true h.connectionLost.exact trivial

theorem Consistent.step {event : Event} (hsafe : Safe cfg s a event) :
    Consistent cfg (step cfg s event).1 (tableStep cfg s table event)
      (announcedStep cfg a event) := by
  cases event with
  | announce => exact h.announce hsafe
  | setInFilters => exact h.setInFilters hsafe
  | connectionMade => exact h.connectionMade
  | withdraw id nlri => exact h.withdraw id nlri
  | eor => exact h.eor
  | connectionLost => exact h.connectionLost

end

end Step

/-! ### Whole runs -/

variable (filters : List PrefixFilter)

theorem run_concat (events : List Event) (event : Event) :
    run cfg filters (events ++ [event]) =
      ((step cfg (run cfg filters events).1 event).1,
        (run cfg filters events).2 ++ (step cfg (run cfg filters events).1 event).2) := by
  simp [run]

theorem announced_concat (events : List Event) (event : Event) :
    announced cfg filters (events ++ [event]) =
      announcedStep cfg (announced cfg filters events) event := by
  simp [announced]

theorem received_run (events : List Event) :
    Received cfg (run cfg filters events).1 ∧
      ∀ call ∈ (run cfg filters events).2, call.FromPeer cfg := by
  induction events using reverseRecOn with
  | nil => exact ⟨⟨by simp [run], by simp [run]⟩, by simp [run]⟩
  | append_singleton events event ih =>
    rw [run_concat]
    have hstep := received_step ih.1 event
    refine ⟨hstep.1, fun call hcall => ?_⟩
    rcases mem_append.1 hcall with hcall | hcall
    · exact ih.2 call hcall
    · exact hstep.2 call hcall

/-- The paths of the peer in the tables. -/
def tablePaths (cfg : RibConfig) (filters : List PrefixFilter) (events : List Event) :
    TableKey → Option Path :=
  (run cfg filters events).2.foldl (TableCall.applyPath cfg) fun _ => none

theorem tablePaths_concat (events : List Event) (event : Event) :
    tablePaths cfg filters (events ++ [event]) =
      tableStep cfg (run cfg filters events).1 (tablePaths cfg filters events) event := by
  simp [tablePaths, run_concat, tableStep]

theorem exact_iff (events : List Event) :
    Exact cfg filters events ↔
      ∀ k, tablePaths cfg filters events k = (announced cfg filters events).unblocked k := by
  have hcalls : ∀ call ∈ (run cfg filters events).2, call.FromPeer cfg :=
    (received_run filters events).2
  refine forall_congr' fun k => ?_
  have hknown : (replay cfg (run cfg filters events).2 k).knownPathList =
      (tablePaths cfg filters events k).toList :=
    congrArg Prod.fst (represents_replay hcalls k).1
  rw [hknown]
  cases tablePaths cfg filters events k <;>
    cases (announced cfg filters events).unblocked k <;> simp

/-- A neighbor in AS 65001. -/
def neighbor : RibConfig := ⟨⟨1, 65001, 1, 1⟩, 65000, octetsText ':'⟩

def announceTen : Event :=
  .announce 0 (.ip 8 [10, 0, 0, 0]) { asPath := some [.asSequence [65001]] }
    (some [192, 0, 2, 1]) []

def denyTen : PrefixFilter := { network := ⟨[10, 0, 0, 0], 8⟩, policy := .deny }

end AdjRibIn

end BebaCtrl.Bgp
