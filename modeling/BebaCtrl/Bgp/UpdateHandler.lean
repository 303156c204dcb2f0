import BebaCtrl.Bgp.AdjRibIn
import BebaCtrl.Bgp.Packet

/-!
# The handler of UPDATE messages

`Peer._handle_update_msg` in the state Established: the validation of the message, then the new
paths and the withdrawals of its multiprotocol attributes and of its own two lists. An exception
ends the handler where it is raised, and what was done before stays.

Of the state, only `_init_rtc_nlri_path` decides whether there is an exception; the rest depends on
the message and on the configuration.
-/

namespace BebaCtrl.Bgp.UpdateHandler

open AdjRibIn Wire List PyM

/-! ## In-filters -/

/-- The policies of `ASPathFilter`, none of which permits or denies. -/
inductive AsPathPolicy where
  | top
  | atEnd
  | includes
  | notIncludes
  deriving DecidableEq, Repr

inductive InFilter where
  | ofPrefix (filter : PrefixFilter)
  | ofAsPath (asNumber : Nat) (policy : AsPathPolicy)
  deriving DecidableEq, Repr

/-- Does the first segment match? A set cannot be indexed, and a withdrawal has no AS_PATH. -/
def evaluateAsPath (asNumber : Nat) (policy : AsPathPolicy) :
    Option (List AsSegment) → PyResult Bool
  | none => .error .attributeError
  | some value =>
    match policy, value with
    | .includes, seg :: _ => .ok (seg.numbers.contains asNumber)
    | .notIncludes, seg :: _ => .ok (!seg.numbers.contains asNumber)
    | .notIncludes, [] => .ok true
    | .top, .asSequence l :: _ => .ok (l.head? == some asNumber)
    | .atEnd, .asSequence l :: _ => .ok (l.getLast? == some asNumber)
    | .top, .asSet (_ :: _) :: _ | .atEnd, .asSet (_ :: _) :: _ => .error .typeError
    | _, _ => .ok false

/-- The policy of a filter of the family of the route that matches, if it permits or denies. The
length of a prefix that was cut short may be too large for `netaddr`. -/
def InFilter.evaluate (nlri : Nlri) (asPath : Option (List AsSegment)) :
    InFilter → PyResult (Option FilterPolicy)
  | .ofPrefix f =>
    match f.routeOf nlri with
    | none => .ok none
    | some (length, addr) =>
      if 8 * addr.length < length then .error (.other "AddrFormatError")
      else .ok (if (f.evaluate length addr).2 then some f.policy else none)
  | .ofAsPath asNumber policy =>
    if nlri.routeFamily = some rfIPv4UC then do
      let _ ← evaluateAsPath asNumber policy asPath
      return none
    else .ok none

/-- `_apply_in_filter`: is the route blocked? -/
def applyInFilter (nlri : Nlri) (asPath : Option (List AsSegment)) : List InFilter → PyResult Bool
  | [] => .ok false
  | f :: filters => do
    match ← f.evaluate nlri asPath with
    | some .permit => return false
    | some .deny => return true
    | none => applyInFilter nlri asPath filters

/-! ## The peer -/

structure UpdateConfig extends RibConfig where
  checkFirstAs : Bool
  hostBindIp : Option Bytes
  /-- the capabilities of the OPEN that was sent -/
  sentCaps : List Capability
  /-- the optional parameters of the OPEN that was received -/
  recvOptParam : List OptParam
  inFilters : List InFilter
  /-- `global_interested_rts` -/
  interestedRts : List RouteTarget

structure State where
  adjRibIn : AList fun _ : List Char => ReceivedRoute := ∅
  initRtcNlriPath : Option (List Path) := some []
  versionNum : Nat := 1
  recvUpdates : Nat := 0
  recvPrefixes : Nat := 0
  nextId : Nat := 0
  /-- what the tables were asked to do so far -/
  calls : List TableCall := []

/-- `get_rf` -/
def getRf (afi safi : Nat) : PyResult RouteFamily :=
  if ⟨afi, safi⟩ ∈ rfMap then .ok ⟨afi, safi⟩ else .error .keyError

def isMpbgpCap (rf : RouteFamily) (cap : Capability) : Bool :=
  match cap.value with
  | .multiprotocol afi _ safi => rf.afi == afi && rf.safi == safi
  | _ => false

/-- `_check_route_fmly_adv`, which goes through all parameters. One of an unknown type has no
`cap_code`. -/
def checkRouteFmlyAdv (rf : RouteFamily) : List OptParam → Bool → PyResult Bool
  | [], matchFound => .ok matchFound
  | .unknown _ _ _ :: _, _ => .error .attributeError
  | .capability cap :: opts, matchFound =>
    checkRouteFmlyAdv rf opts (matchFound || isMpbgpCap rf cap)

def pathattrMap (msg : BgpUpdate) : PathAttrMap :=
  .ofAttributes (msg.pathAttributes.map PathAttribute.value)

def liftPy {α : Type} (r : PyResult α) : Except Raised α := r.mapError .pyErr

variable (cfg : UpdateConfig)

/-- The result is only logged. -/
def isMpbgpCapValid (rf : RouteFamily) : PyResult Bool := do
  if ← checkRouteFmlyAdv rf (cfg.sentCaps.map .capability) false then
    checkRouteFmlyAdv rf cfg.recvOptParam false
  else return false

def checkLeftmost (aspath : List AsSegment) : Except Raised Unit :=
  if cfg.checkFirstAs ∧ cfg.localAs ≠ cfg.peer.remoteAs then do
    let matching ← liftPy (hasMatchingLeftmost aspath cfg.peer.remoteAs)
    if matching then .ok () else .error (.bgpExc .malformedAsPath)
  else .ok ()

/-- The checks of AS_PATH and ORIGIN, which are made for routes of both kinds. -/
def checkWellKnown (pattrs : PathAttrMap) : Except Raised Unit :=
  match pattrs.asPath with
  | none => .error (.bgpExc (.missingWellKnown 2))
  | some aspath => do
    checkLeftmost cfg aspath
    if pattrs.origin.isSome then .ok () else .error (.bgpExc (.missingWellKnown 1))

def validatePlain (msg : BgpUpdate) (pattrs : PathAttrMap) : Except Raised Bool := do
  let _ ← liftPy (isMpbgpCapValid cfg rfIPv4UC)
  if msg.nlri = [] then return true
  else
    checkWellKnown cfg pattrs
    if pattrs.nextHop.isSome then return true else throw (.bgpExc (.missingWellKnown 3))

/-- The family of a multiprotocol attribute, and its capability. -/
def validateFamily (afi safi : Nat) : PyResult Unit := do
  let rf ← getRf afi safi
  let _ ← isMpbgpCapValid cfg rf

/-- A next hop that is the local address makes the message invalid. -/
def validateMpReach (pattrs : PathAttrMap) : Except Raised Bool :=
  match pattrs.mpReachNlri with
  | none => .ok true
  | some (afi, safi, nextHop, _) => do
    liftPy (validateFamily cfg afi safi)
    checkWellKnown cfg pattrs
    return some nextHop != cfg.hostBindIp

def validateUpdateMsg (msg : BgpUpdate) : Except Raised Bool :=
  let pattrs := pathattrMap msg
  match pattrs.mpReachNlri, pattrs.mpUnreachNlri with
  | none, none => validatePlain cfg msg pattrs
  | _, none => validateMpReach cfg pattrs
  | _, some (afi, safi, _) => do
    liftPy (validateFamily cfg afi safi)
    validateMpReach cfg pattrs

/-! ## New paths and withdrawals -/

/-- `create_path` has a class for each supported family. -/
def pathClass (nlri : Nlri) : PyResult Unit :=
  match nlri.routeFamily with
  | none => .error .attributeError
  | some rf => pyAssert (rf ∈ supportedGlobalRf)

def newPath (nlri : Nlri) (make : Nat → Nat → Path) : PyM State Path := do
  pathClass nlri
  let s ← get
  modify fun s => { s with nextId := s.nextId + 1 }
  return make s.versionNum s.nextId

def State.learn (s : State) (path : Path) : State :=
  { s with calls := s.calls ++ [.learnPath path] }

/-- A path that is not blocked is learned, or kept until the end of the first route targets. -/
def State.receive (s : State) (nlriStr : List Char) (msgRf : RouteFamily) (path : Path)
    (block : Bool) : State :=
  let s := { s with adjRibIn := s.adjRibIn.insert nlriStr ⟨path, block⟩ }
  if block then s
  else
    match s.initRtcNlriPath with
    | some paths =>
      if msgRf = rfRTCUC then { s with initRtcNlriPath := some (paths ++ [path]) } else s.learn path
    | none => s.learn path

def handleNewPath (msgRf : RouteFamily) (pattrs : PathAttrMap) (nlri : Nlri) :
    PyM State Unit := do
  let path ← newPath nlri fun versionNum id => createPath cfg.toRibConfig versionNum id nlri pattrs
  let block ← (applyInFilter nlri pattrs.asPath cfg.inFilters : PyResult Bool)
  modify fun s => s.receive (cfg.nlriStr nlri) msgRf path block

def handleNewPaths (msgRf : RouteFamily) (pattrs : PathAttrMap) (nlriList : List Nlri) :
    PyM State Unit := do
  nlriList.forM (handleNewPath cfg msgRf pattrs)
  modify fun s => { s with recvPrefixes := s.recvPrefixes + nlriList.length }

def hasInterestingRt (pattrs : PathAttrMap) : Bool :=
  match pattrs.extendedCommunities with
  | none => false
  | some communities => (rtList communities).any cfg.interestedRts.contains

/-- Nothing is done without the attribute. -/
def extractAndHandleMpbgpNewPaths (pattrs : PathAttrMap) : PyM State Unit :=
  match pattrs.mpReachNlri with
  | none => return
  | some (afi, safi, _, nlriList) => do
    let msgRf ← (getRf afi safi : PyResult RouteFamily)
    if msgRf ∉ supportedGlobalRf then return
    else
      match pattrs.asPath with
      | none => throw .attributeError
      | some aspath =>
        if hasLocalAs aspath cfg.localAs then return
        else if (msgRf = rfIPv4VPN ∨ msgRf = rfIPv6VPN) ∧ !hasInterestingRt cfg pattrs then return
        else handleNewPaths cfg msgRf pattrs nlriList

/-- Nothing is done without routes. -/
def extractAndHandleBgp4NewPaths (pattrs : PathAttrMap) : List Nlri → PyM State Unit
  | [] => return
  | nlriList =>
    match pattrs.asPath with
    | none => throw .attributeError
    | some aspath =>
      if hasLocalAs aspath cfg.localAs then return
      else
        match pattrs.nextHop with
        | none => throw .attributeError
        | some _ => handleNewPaths cfg rfIPv4UC pattrs nlriList

def State.withdraw (s : State) (nlriStr : List Char) (path : Path) (block : Bool) : State :=
  let s := { s with adjRibIn := s.adjRibIn.erase nlriStr }
  if block then s else s.learn path

def handleWithdraw (nlri : Nlri) : PyM State Unit := do
  let path ← newPath nlri fun versionNum id => createWithdraw cfg.toRibConfig versionNum id nlri
  let block ← (applyInFilter nlri none cfg.inFilters : PyResult Bool)
  modify fun s => s.withdraw (cfg.nlriStr nlri) path block

/-- `None` cannot be gone through. -/
def handleEor (rf : RouteFamily) : PyM State Unit := do
  let s ← get
  if rf = rfRTCUC then
    match s.initRtcNlriPath with
    | none => throw .typeError
    | some paths =>
      set { s with initRtcNlriPath := none, calls := s.calls ++ paths.map TableCall.learnPath }
  else return

def handleWithdraws (rf : RouteFamily) : List Nlri → PyM State Unit
  | [] => handleEor rf
  | withdrawList => withdrawList.forM (handleWithdraw cfg)

def extractAndHandleMpbgpWithdraws (pattrs : PathAttrMap) : PyM State Unit :=
  match pattrs.mpUnreachNlri with
  | none => return
  | some (afi, safi, withdrawList) => do
    let rf ← (getRf afi safi : PyResult RouteFamily)
    if rf ∈ supportedGlobalRf then handleWithdraws cfg rf withdrawList else return

def processUpdateMsg (msg : BgpUpdate) : PyM State Unit := do
  let pattrs := pathattrMap msg
  extractAndHandleMpbgpNewPaths cfg pattrs
  extractAndHandleMpbgpWithdraws cfg pattrs
  extractAndHandleBgp4NewPaths cfg pattrs msg.nlri
  -- an empty list would be the end of a family that is not looked at
  handleWithdraws cfg rfIPv4UC msg.withdrawnRoutes

def handleUpdateMsg (msg : BgpUpdate) (s : State) : Except Raised Unit × State :=
  let s := { s with recvUpdates := s.recvUpdates + 1 }
  match validateUpdateMsg cfg msg with
  | .error e => (.error e, s)
  | .ok false => (.ok (), s)
  | .ok true => (liftPy (processUpdateMsg cfg msg s).1, (processUpdateMsg cfg msg s).2)

/-! ## What a message must be like -/

/-- The code ends, or it raises a `BgpExc`. -/
def Handled {α : Type} (r : Except Raised α) : Prop := ∀ e, r ≠ .error (.pyErr e)

def StartsWithSet (value : List AsSegment) : Prop := ∃ n l rest, value = .asSet (n :: l) :: rest

/-- The filter can be evaluated. -/
def InFilter.Applies (nlri : Nlri) (asPath : Option (List AsSegment)) : InFilter → Prop
  | .ofPrefix f => ∀ length addr, f.routeOf nlri = some (length, addr) → length ≤ 8 * addr.length
  | .ofAsPath _ policy => nlri.routeFamily = some rfIPv4UC →
    ∃ value, asPath = some value ∧ (policy = .top ∨ policy = .atEnd → ¬StartsWithSet value)

/-- The filters after this one are not looked at. -/
def InFilter.Decides (nlri : Nlri) : InFilter → Prop
  | .ofPrefix f => ∃ length addr, f.routeOf nlri = some (length, addr) ∧
    (f.evaluate length addr).2 = true
  | .ofAsPath _ _ => False

def FiltersApply (nlri : Nlri) (asPath : Option (List AsSegment)) : List InFilter → Prop
  | [] => True
  | f :: filters => f.Applies nlri asPath ∧ (f.Decides nlri ∨ FiltersApply nlri asPath filters)

/-- The capability for the family can be looked up: it was not sent, or the peer has sent no
parameter of an unknown type. -/
def CapReadable (rf : RouteFamily) : Prop :=
  (∃ cap ∈ cfg.sentCaps, isMpbgpCap rf cap = true) →
    ∀ opt ∈ cfg.recvOptParam, ∃ cap, opt = .capability cap

def FamilyReadable (afi safi : Nat) : Prop := ⟨afi, safi⟩ ∈ rfMap ∧ CapReadable cfg ⟨afi, safi⟩

/-- The first AS is not looked up in a set. -/
def FirstAsReadable (pattrs : PathAttrMap) : Prop :=
  cfg.checkFirstAs = true → cfg.localAs ≠ cfg.peer.remoteAs → cfg.peer.remoteAs ≠ 0 →
    ∀ aspath, pattrs.asPath = some aspath → ¬StartsWithSet aspath

/-- The validation raises nothing but a `BgpExc`. -/
def Checkable (msg : BgpUpdate) : Prop :=
  let pattrs := pathattrMap msg
  (∀ afi safi nlris, pattrs.mpUnreachNlri = some (afi, safi, nlris) →
    FamilyReadable cfg afi safi) ∧
  (∀ afi safi nextHop nlris, pattrs.mpReachNlri = some (afi, safi, nextHop, nlris) →
    FamilyReadable cfg afi safi ∧ FirstAsReadable cfg pattrs) ∧
  (pattrs.mpReachNlri = none → pattrs.mpUnreachNlri = none →
    CapReadable cfg rfIPv4UC ∧ (msg.nlri ≠ [] → FirstAsReadable cfg pattrs))

/-- AS_PATH and ORIGIN are there, and the first AS is that of the peer if it is checked. -/
def WellKnown (pattrs : PathAttrMap) : Prop :=
  pattrs.origin.isSome ∧ ∃ aspath, pattrs.asPath = some aspath ∧
    (cfg.checkFirstAs = true → cfg.localAs ≠ cfg.peer.remoteAs → cfg.peer.remoteAs ≠ 0 ∧
      ∃ l rest, aspath = .asSequence (cfg.peer.remoteAs :: l) :: rest)

/-- The routes of the message are used. -/
def Valid (msg : BgpUpdate) : Prop :=
  let pattrs := pathattrMap msg
  (∀ afi safi nextHop nlris, pattrs.mpReachNlri = some (afi, safi, nextHop, nlris) →
    WellKnown cfg pattrs ∧ cfg.hostBindIp ≠ some nextHop) ∧
  (pattrs.mpReachNlri = none → pattrs.mpUnreachNlri = none → msg.nlri ≠ [] →
    WellKnown cfg pattrs ∧ pattrs.nextHop.isSome)

def NoLoop (pattrs : PathAttrMap) : Prop :=
  ∀ aspath, pattrs.asPath = some aspath → hasLocalAs aspath cfg.localAs = false

/-- Announced routes of the family are looked at one by one. -/
def Used (rf : RouteFamily) (pattrs : PathAttrMap) : Prop :=
  rf ∈ supportedGlobalRf ∧ NoLoop cfg pattrs ∧
    (rf = rfIPv4VPN ∨ rf = rfIPv6VPN → hasInterestingRt cfg pattrs = true)

/-- The routes of a valid message raise nothing. -/
structure Processable (s : State) (msg : BgpUpdate) : Prop where
  reach : ∀ afi safi nextHop nlris,
    (pathattrMap msg).mpReachNlri = some (afi, safi, nextHop, nlris) →
    Used cfg ⟨afi, safi⟩ (pathattrMap msg) →
    ∀ nlri ∈ nlris, FiltersApply nlri (pathattrMap msg).asPath cfg.inFilters
  /-- The end of the route targets comes once. -/
  eor : (pathattrMap msg).mpUnreachNlri = some (rfRTCUC.afi, rfRTCUC.safi, []) →
    s.initRtcNlriPath.isSome
  unreach : ∀ afi safi nlris, (pathattrMap msg).mpUnreachNlri = some (afi, safi, nlris) →
    ⟨afi, safi⟩ ∈ supportedGlobalRf → ∀ nlri ∈ nlris, FiltersApply nlri none cfg.inFilters
  /-- Plain routes have an AS_PATH and, unless that has a loop, a NEXT_HOP. -/
  mandatory : msg.nlri ≠ [] → (pathattrMap msg).asPath.isSome ∧
    (NoLoop cfg (pathattrMap msg) → (pathattrMap msg).nextHop.isSome)
  nlri : NoLoop cfg (pathattrMap msg) →
    ∀ nlri ∈ msg.nlri, FiltersApply nlri (pathattrMap msg).asPath cfg.inFilters
  withdrawn : ∀ nlri ∈ msg.withdrawnRoutes, FiltersApply nlri none cfg.inFilters

/-! ### Filters -/

variable {asPath : Option (List AsSegment)}

theorem exists_evaluateAsPath {asNumber : Nat} {policy : AsPathPolicy} :
    (∃ b, evaluateAsPath asNumber policy asPath = .ok b) ↔
      ∃ value, asPath = some value ∧ (policy = .top ∨ policy = .atEnd → ¬StartsWithSet value) := by
  cases asPath with
  | none => simp [evaluateAsPath]
  | some value =>
    simp only [evaluateAsPath, StartsWithSet, Option.some.injEq, exists_eq_left']
    split <;> grind

variable {f : InFilter} {nlri : Nlri}

theorem exists_evaluate :
    (∃ b, f.evaluate nlri asPath = .ok b) ↔ f.Applies nlri asPath := by
  cases f with
  | ofPrefix f =>
    simp only [InFilter.evaluate, InFilter.Applies]
    split
    · rename_i hroute
      simp [hroute]
    · rename_i length addr hroute
      rw [exists_ite_error]
      simp [hroute]
  | ofAsPath asNumber policy =>
    simp only [InFilter.evaluate, InFilter.Applies]
    split
    · rename_i hfamily
      rw [exists_bind_pure, exists_evaluateAsPath]
      simp [hfamily]
    · rename_i hfamily
      simp [hfamily]

theorem decides_iff {policy : Option FilterPolicy} (h : f.evaluate nlri asPath = .ok policy) :
    f.Decides nlri ↔ policy ≠ none := by
  cases f with
  | ofPrefix f =>
    simp only [InFilter.evaluate, InFilter.Decides] at h ⊢
    split at h
    · rename_i hroute
      cases h
      simp [hroute]
    · rename_i length addr hroute
      split at h
      · cases h
      · cases h
        simp [hroute]
  | ofAsPath asNumber policy' =>
    simp only [InFilter.evaluate, InFilter.Decides] at h ⊢
    split at h
    · obtain ⟨_, -, hpolicy⟩ := BebaCtrl.bind_eq_ok.1 h
      cases hpolicy
      simp
    · cases h
      simp

theorem exists_applyInFilter {filters : List InFilter} :
    (∃ block, applyInFilter nlri asPath filters = .ok block) ↔
      FiltersApply nlri asPath filters := by
  induction filters with
  | nil => simp [applyInFilter, FiltersApply]
  | cons f filters ih =>
    rw [applyInFilter, FiltersApply, ← exists_evaluate]
    refine exists_bind_eq_ok fun policy hpolicy => ?_
    rw [decides_iff hpolicy, ← ih]
    cases policy with
    | none => simp
    | some policy => cases policy <;> simp

/-! ### Validation -/

section Handled

variable {α β : Type} {f : α → Except Raised β} {x : Except Raised α}

theorem handled_bind :
    Handled (x >>= f) ↔ Handled x ∧ ∀ a, x = .ok a → Handled (f a) := by
  cases x <;> simp [Handled]

variable {r : PyResult α}

@[simp] theorem liftPy_ok {a : α} : liftPy (.ok a) = .ok a := rfl

@[simp] theorem liftPy_error {e : PyErr} :
    (liftPy (.error e) : Except Raised α) = .error (.pyErr e) :=
  rfl

theorem handled_liftPy : Handled (liftPy r) ↔ ∃ a, r = .ok a := by
  cases r <;> simp [Handled]

theorem handled_liftPy_bind {p : Prop} (h : ∀ a, Handled (f a) ↔ p) :
    Handled (liftPy r >>= f) ↔ (∃ a, r = .ok a) ∧ p := by
  cases r with
  | error e => simp [Handled]
  | ok a => exact (h a).trans (by simp)

theorem handled_bind_of_forall (h : ∀ a, Handled (f a)) :
    Handled (x >>= f) ↔ Handled x :=
  handled_bind.trans (and_iff_left fun a _ => h a)

theorem handled_ok {a : α} : Handled (.ok a) := by simp [Handled]

theorem handled_bgpExc {exc : BgpExc} : Handled (.error (.bgpExc exc) : Except Raised α) := by
  simp [Handled]

end Handled

variable {rf : RouteFamily}

theorem exists_checkRouteFmlyAdv {opts : List OptParam} {matchFound : Bool} :
    (∃ b, checkRouteFmlyAdv rf opts matchFound = .ok b) ↔
      ∀ opt ∈ opts, ∃ cap, opt = .capability cap := by
  induction opts generalizing matchFound with
  | nil => simp [checkRouteFmlyAdv]
  | cons opt opts ih =>
    cases opt with
    | unknown => simp [checkRouteFmlyAdv]
    | capability cap => simp [checkRouteFmlyAdv, ih]

theorem checkRouteFmlyAdv_caps (rf : RouteFamily) (caps : List Capability) (matchFound : Bool) :
    checkRouteFmlyAdv rf (caps.map .capability) matchFound =
      .ok (matchFound || caps.any (isMpbgpCap rf)) := by
  induction caps generalizing matchFound with
  | nil => simp [checkRouteFmlyAdv]
  | cons cap caps ih => simp [checkRouteFmlyAdv, ih, Bool.or_assoc]

variable {cfg}

theorem exists_isMpbgpCapValid :
    (∃ b, isMpbgpCapValid cfg rf = .ok b) ↔ CapReadable cfg rf := by
  have hsent := checkRouteFmlyAdv_caps rf cfg.sentCaps false
  unfold isMpbgpCapValid CapReadable
  rw [hsent, Bool.false_or]
  by_cases hany : cfg.sentCaps.any (isMpbgpCap rf) = true
  · have hcap : ∃ cap ∈ cfg.sentCaps, isMpbgpCap rf cap = true := any_eq_true.1 hany
    simpa [hany, hcap] using exists_checkRouteFmlyAdv
  · have hcap : ¬∃ cap ∈ cfg.sentCaps, isMpbgpCap rf cap = true := mt any_eq_true.2 hany
    simp [hany, hcap]

variable {afi safi : Nat}

theorem exists_validateFamily :
    (∃ u, validateFamily cfg afi safi = .ok u) ↔ FamilyReadable cfg afi safi := by
  unfold validateFamily getRf FamilyReadable
  split
  · rename_i hrf
    exact exists_bind_pure.trans (exists_isMpbgpCapValid.trans (by simp [hrf]))
  · rename_i hrf
    simp [hrf]

variable {value : List AsSegment} {remoteAs : Nat}

theorem exists_hasMatchingLeftmost :
    (∃ b, hasMatchingLeftmost value remoteAs = .ok b) ↔
      (remoteAs ≠ 0 → ¬StartsWithSet value) := by
  unfold hasMatchingLeftmost StartsWithSet
  split
  · rename_i h0
    simp [h0]
  · split <;> simp_all

theorem hasMatchingLeftmost_eq_true :
    hasMatchingLeftmost value remoteAs = .ok true ↔
      remoteAs ≠ 0 ∧ ∃ l rest, value = .asSequence (remoteAs :: l) :: rest := by
  unfold hasMatchingLeftmost
  split
  · rename_i h0
    simp [h0]
  · split <;> simp_all

variable {aspath : List AsSegment}

section Validation

variable {pattrs : PathAttrMap}

theorem handled_ite {α : Type} {p : Prop} [Decidable p] {a : α} {exc : BgpExc} :
    Handled (if p then .ok a else .error (.bgpExc exc)) := by
  split
  · exact handled_ok
  · exact handled_bgpExc

theorem handled_checkLeftmost :
    Handled (checkLeftmost cfg aspath) ↔ (cfg.checkFirstAs = true →
      cfg.localAs ≠ cfg.peer.remoteAs → cfg.peer.remoteAs ≠ 0 → ¬StartsWithSet aspath) := by
  unfold checkLeftmost
  split
  · rename_i hcheck
    refine (handled_liftPy_bind fun _ => iff_true_intro handled_ite).trans ?_
    rw [exists_hasMatchingLeftmost]
    simp [hcheck]
  · rename_i hcheck
    exact iff_of_true handled_ok fun hfirst hne => absurd ⟨hfirst, hne⟩ hcheck

theorem checkLeftmost_eq_ok :
    checkLeftmost cfg aspath = .ok () ↔ (cfg.checkFirstAs = true →
      cfg.localAs ≠ cfg.peer.remoteAs → cfg.peer.remoteAs ≠ 0 ∧
        ∃ l rest, aspath = .asSequence (cfg.peer.remoteAs :: l) :: rest) := by
  unfold checkLeftmost
  split
  · rename_i hcheck
    rw [← hasMatchingLeftmost_eq_true]
    rcases hasMatchingLeftmost aspath cfg.peer.remoteAs with e | matching
    · simp [hcheck]
    · cases matching <;> simp [hcheck]
  · rename_i hcheck
    exact iff_of_true rfl fun hfirst hne => absurd ⟨hfirst, hne⟩ hcheck

theorem handled_checkWellKnown :
    Handled (checkWellKnown cfg pattrs) ↔ FirstAsReadable cfg pattrs := by
  unfold checkWellKnown FirstAsReadable
  cases pattrs.asPath with
  | none => exact iff_of_true handled_bgpExc (by simp)
  | some aspath =>
    refine (handled_bind_of_forall fun _ => handled_ite).trans (handled_checkLeftmost.trans ?_)
    simp

theorem checkWellKnown_eq_ok :
    checkWellKnown cfg pattrs = .ok () ↔ WellKnown cfg pattrs := by
  unfold checkWellKnown WellKnown
  cases pattrs.asPath with
  | none => simp
  | some aspath =>
    simp only [Option.some.injEq, exists_eq_left', ← checkLeftmost_eq_ok]
    rcases checkLeftmost cfg aspath with e | u
    · simp
    · cases pattrs.origin <;> simp

variable {msg : BgpUpdate}

theorem handled_validatePlain :
    Handled (validatePlain cfg msg pattrs) ↔
      CapReadable cfg rfIPv4UC ∧ (msg.nlri ≠ [] → FirstAsReadable cfg pattrs) := by
  rw [← exists_isMpbgpCapValid]
  refine handled_liftPy_bind fun _ => ?_
  split
  · rename_i hnlri
    exact iff_of_true handled_ok fun hne => absurd hnlri hne
  · rename_i hnlri
    refine (handled_bind_of_forall fun _ => handled_ite).trans (handled_checkWellKnown.trans ?_)
    simp [hnlri]

theorem handled_validateMpReach :
    Handled (validateMpReach cfg pattrs) ↔
      ∀ afi safi nextHop nlris, pattrs.mpReachNlri = some (afi, safi, nextHop, nlris) →
        FamilyReadable cfg afi safi ∧ FirstAsReadable cfg pattrs := by
  unfold validateMpReach
  split
  · rename_i hreach
    exact iff_of_true handled_ok (by simp [hreach])
  · refine (handled_liftPy_bind fun _ =>
      (handled_bind_of_forall fun _ => handled_ok).trans handled_checkWellKnown).trans ?_
    rw [exists_validateFamily]
    grind

theorem handled_validateUpdateMsg :
    Handled (validateUpdateMsg cfg msg) ↔ Checkable cfg msg := by
  unfold validateUpdateMsg Checkable
  dsimp only
  split
  · rename_i hreach hunreach
    rw [handled_validatePlain]
    simp [hreach, hunreach]
  · rw [handled_validateMpReach]
    grind
  · rename_i reach afi safi nlris hunreach
    refine (handled_liftPy_bind fun _ => handled_validateMpReach).trans ?_
    rw [exists_validateFamily, hunreach]
    grind

theorem validateFamily_of_readable (h : FamilyReadable cfg afi safi) :
    validateFamily cfg afi safi = .ok () := (exists_validateFamily.2 h).choose_spec

theorem validatePlain_eq_true (hcap : CapReadable cfg rfIPv4UC) :
    validatePlain cfg msg pattrs = .ok true ↔
      (msg.nlri ≠ [] → WellKnown cfg pattrs ∧ pattrs.nextHop.isSome) := by
  obtain ⟨valid, hvalid⟩ := exists_isMpbgpCapValid.2 hcap
  rw [validatePlain, hvalid, ← checkWellKnown_eq_ok]
  by_cases hnlri : msg.nlri = []
  · simp [hnlri]
  · rcases checkWellKnown cfg pattrs with e | u
    · simp [hnlri]
    · cases pattrs.nextHop <;> simp [hnlri]

theorem validateMpReach_eq_true {nextHop : Bytes} {nlris : List Nlri}
    (hreach : pattrs.mpReachNlri = some (afi, safi, nextHop, nlris))
    (h : FamilyReadable cfg afi safi) :
    validateMpReach cfg pattrs = .ok true ↔
      WellKnown cfg pattrs ∧ cfg.hostBindIp ≠ some nextHop := by
  rw [validateMpReach, hreach]
  dsimp only
  rw [validateFamily_of_readable h, ← checkWellKnown_eq_ok]
  rcases checkWellKnown cfg pattrs with e | u
  · simp
  · simp [ne_comm]

theorem validateUpdateMsg_eq_true (h : Checkable cfg msg) :
    validateUpdateMsg cfg msg = .ok true ↔ Valid cfg msg := by
  obtain ⟨hunreach, hreach, hplain⟩ := h
  unfold validateUpdateMsg Valid
  dsimp only
  rcases hr : (pathattrMap msg).mpReachNlri with _ | ⟨afi, safi, nextHop, nlris⟩ <;>
    rcases hu : (pathattrMap msg).mpUnreachNlri with _ | ⟨afi', safi', nlris'⟩
  · rw [validatePlain_eq_true (hplain hr hu).1]
    simp
  · have hfamily := validateFamily_of_readable (hunreach afi' safi' nlris' hu)
    simp [hfamily, validateMpReach, hr]
  · rw [validateMpReach_eq_true hr (hreach afi safi nextHop nlris hr).1]
    grind
  · have hfamily := validateFamily_of_readable (hunreach afi' safi' nlris' hu)
    have hmp := validateMpReach_eq_true hr (hreach afi safi nextHop nlris hr).1
    dsimp only
    rw [hfamily]
    exact hmp.trans (by grind)

end Validation

/-! ### Routes of a message that was parsed -/

/-- The family of the routes of a class. -/
def classFamily : AddrClass → Option RouteFamily
  | .ip => some rfIPv4UC
  | .ip6 => some rfIPv6UC
  | .labelledIp => some rfIPv4MPLS
  | .labelledIp6 => some rfIPv6MPLS
  | .vpnIp => some rfIPv4VPN
  | .vpnIp6 => some rfIPv6VPN
  | .rtc => some rfRTCUC
  | .bin => none

variable {buf : Bytes}

theorem routeFamily_of_parseNlri {cls : AddrClass} {rest : Bytes}
    (h : parseNlri cls buf = .ok (nlri, rest)) : nlri.routeFamily = classFamily cls := by
  unfold parseNlri at h
  split at h
  · cases h
  · obtain ⟨nlri', hmake, hret⟩ := BebaCtrl.bind_eq_ok.1 h
    cases hret
    cases cls <;> simp only [makeNlri, BebaCtrl.bind_eq_ok] at hmake
    case rtc => cases hmake
    case bin => cases hmake; rfl
    all_goals
      obtain ⟨_, _, hnlri⟩ := hmake
      cases hnlri
      rfl

theorem classFamily_getAddrClass (h : (⟨afi, safi⟩ : RouteFamily) ∈ rfMap) :
    classFamily (getAddrClass afi safi) = some ⟨afi, safi⟩ := by
  simp only [rfMap, rfIPv4UC, rfIPv6UC, rfIPv4VPN, rfIPv6VPN, rfIPv4MPLS, rfIPv6MPLS, rfRTCUC,
    afiIP, afiIP6, mem_cons, RouteFamily.mk.injEq, not_mem_nil, or_false] at h
  rcases h with ⟨rfl, rfl⟩ | ⟨rfl, rfl⟩ | ⟨rfl, rfl⟩ | ⟨rfl, rfl⟩ | ⟨rfl, rfl⟩ | ⟨rfl, rfl⟩ |
    ⟨rfl, rfl⟩ <;> rfl

/-- The routes of a multiprotocol attribute are of its family. -/
def OfFamily (afi safi : Nat) (nlris : List Nlri) : Prop :=
  ∀ nlri ∈ nlris, nlri.routeFamily = classFamily (getAddrClass afi safi)

def AttrOfFamily : AttrValue → Prop
  | .mpReachNlri afi safi _ nlris | .mpUnreachNlri afi safi nlris => OfFamily afi safi nlris
  | _ => True

theorem attrOfFamily_of_parseAttrValue {type : Nat} {value : AttrValue}
    (h : parseAttrValue type buf = .ok value) : AttrOfFamily value := by
  unfold parseAttrValue at h
  split at h
  case h_11 =>
    unfold parseMpReach at h
    split at h
    · cases h
    · simp only [BebaCtrl.bind_eq_ok] at h
      obtain ⟨_, -, nlris, hnlris, nextHop, -, hvalue⟩ := h
      cases hvalue
      exact forall_of_parseAll routeFamily_of_parseNlri hnlris
  case h_12 =>
    unfold parseMpUnreach at h
    split at h
    · cases h
    · simp only [BebaCtrl.bind_eq_ok] at h
      obtain ⟨nlris, hnlris, hvalue⟩ := h
      cases hvalue
      exact forall_of_parseAll routeFamily_of_parseNlri hnlris
  all_goals
    simp only [parseFormat, BebaCtrl.bind_eq_ok, pure_eq_ok] at h
    grind [AttrOfFamily]

/-- The routes of the message and of its multiprotocol attributes are of their families. -/
structure WellKinded (msg : BgpUpdate) : Prop where
  nlri : ∀ nlri ∈ msg.nlri, nlri.routeFamily = some rfIPv4UC
  withdrawn : ∀ nlri ∈ msg.withdrawnRoutes, nlri.routeFamily = some rfIPv4UC
  reach : ∀ afi safi nextHop nlris,
    (pathattrMap msg).mpReachNlri = some (afi, safi, nextHop, nlris) → OfFamily afi safi nlris
  unreach : ∀ afi safi nlris, (pathattrMap msg).mpUnreachNlri = some (afi, safi, nlris) →
    OfFamily afi safi nlris

theorem ofFamily_ofAttributes {attrs : List AttrValue} (h : ∀ attr ∈ attrs, AttrOfFamily attr) :
    (∀ afi safi nextHop nlris,
      (PathAttrMap.ofAttributes attrs).mpReachNlri = some (afi, safi, nextHop, nlris) →
      OfFamily afi safi nlris) ∧
    ∀ afi safi nlris, (PathAttrMap.ofAttributes attrs).mpUnreachNlri = some (afi, safi, nlris) →
      OfFamily afi safi nlris := by
  unfold PathAttrMap.ofAttributes
  induction attrs using reverseRecOn with
  | nil => simp
  | append_singleton attrs attr ih =>
    have hattr : AttrOfFamily attr := h attr (by simp)
    have hmap := ih fun attr hattr => h attr (by simp [hattr])
    rw [foldl_concat]
    cases attr with
    | mpReachNlri | mpUnreachNlri => grind [PathAttrMap.set, AttrOfFamily]
    | _ => exact hmap

theorem wellKinded_of_parseUpdate {msg : BgpUpdate}
    (h : parseUpdate buf = .ok msg) : WellKinded msg := by
  unfold parseUpdate at h
  dsimp only at h
  split at h
  · cases h
  · split at h
    · cases h
    · simp only [BebaCtrl.bind_eq_ok] at h
      obtain ⟨withdrawn, hwithdrawn, attrs, hattrs, nlri, hnlri, hmsg⟩ := h
      cases hmsg
      have hvalues : ∀ attr ∈ attrs, AttrOfFamily attr.value := by
        refine forall_of_parseAll (fun {buf attr rest} hattr => ?_) hattrs
        unfold parsePathAttribute at hattr
        dsimp only at hattr
        split at hattr
        · cases hattr
        · split at hattr
          · cases hattr
          · obtain ⟨value, hvalue, hret⟩ := BebaCtrl.bind_eq_ok.1 hattr
            cases hret
            exact attrOfFamily_of_parseAttrValue hvalue
      have hmapped : ∀ value ∈ attrs.map PathAttribute.value, AttrOfFamily value := by simpa
      have hmaps := ofFamily_ofAttributes hmapped
      exact ⟨forall_of_parseAll routeFamily_of_parseNlri hnlri,
        forall_of_parseAll routeFamily_of_parseNlri hwithdrawn, hmaps.1, hmaps.2⟩

/-! ### Processing -/

theorem exists_pathClass :
    (∃ u, pathClass nlri = .ok u) ↔ ∃ rf ∈ supportedGlobalRf, nlri.routeFamily = some rf := by
  unfold pathClass
  cases nlri.routeFamily with
  | none => simp
  | some rf => exact exists_pyAssert.trans (by simp)

theorem newPath_endsIff {make : Nat → Nat → Path} :
    (newPath nlri make : PyM State Path).EndsIff fun _ =>
      ∃ rf ∈ supportedGlobalRf, nlri.routeFamily = some rf :=
  (PyM.EndsIff.seq (.lift exists_pathClass) fun _ => (fun _ => iff_of_true ⟨_, rfl⟩ trivial :
    PyM.EndsIff _ fun _ => True)).congr fun _ => by simp

/-- The route can be handled by its class and by the filters. -/
def RouteOk (cfg : UpdateConfig) (asPath : Option (List AsSegment)) (nlri : Nlri) : Prop :=
  (∃ rf ∈ supportedGlobalRf, nlri.routeFamily = some rf) ∧
    FiltersApply nlri asPath cfg.inFilters

section Processing

variable {pattrs : PathAttrMap} {rf : RouteFamily} {nlri : Nlri} {nlris : List Nlri}

theorem handleNewPath_endsIff :
    (handleNewPath cfg rf pattrs nlri).EndsIff fun _ => RouteOk cfg pattrs.asPath nlri :=
  (newPath_endsIff.seq fun _ => (PyM.EndsIff.lift exists_applyInFilter).seq fun _ => .modify).congr
    fun _ => by simp [RouteOk]

theorem handleNewPaths_endsIff :
    (handleNewPaths cfg rf pattrs nlris).EndsIff fun _ =>
      ∀ nlri ∈ nlris, RouteOk cfg pattrs.asPath nlri :=
  ((PyM.EndsIff.forM fun _ => handleNewPath_endsIff).seq fun _ => .modify).congr fun _ => by simp

theorem handleWithdraw_endsIff :
    (handleWithdraw cfg nlri).EndsIff fun _ => RouteOk cfg none nlri :=
  (newPath_endsIff.seq fun _ => (PyM.EndsIff.lift exists_applyInFilter).seq fun _ => .modify).congr
    fun _ => by simp [RouteOk]

theorem handleEor_endsIff : (handleEor rf : PyM State Unit).EndsIff fun s =>
    rf = rfRTCUC → s.initRtcNlriPath.isSome := by
  intro s
  rw [handleEor, get_bind]
  split
  · rename_i hrf
    cases hrtc : s.initRtcNlriPath with
    | none => simp [hrf, hrtc, throw_apply]
    | some paths => exact iff_of_true ⟨_, rfl⟩ fun _ => by rw [hrtc]; rfl
  · rename_i hrf
    exact iff_of_true ⟨_, rfl⟩ fun h => absurd h hrf

theorem handleWithdraws_endsIff :
    (handleWithdraws cfg rf nlris).EndsIff fun s =>
      (nlris = [] → rf = rfRTCUC → s.initRtcNlriPath.isSome) ∧
        ∀ nlri ∈ nlris, RouteOk cfg none nlri := by
  cases nlris with
  | nil => exact handleEor_endsIff.congr fun _ => by simp
  | cons nlri nlris =>
    exact (PyM.EndsIff.forM fun _ => handleWithdraw_endsIff).congr fun _ => by simp

theorem getRf_bind {α : Type} (hrf : (⟨afi, safi⟩ : RouteFamily) ∈ rfMap)
    (f : RouteFamily → PyM State α) :
    ((liftM (getRf afi safi) : PyM State RouteFamily) >>= f) = f ⟨afi, safi⟩ := by
  funext s
  exact lift_bind_of_ok (if_pos hrf) f s

theorem noLoop_iff (hpath : pattrs.asPath = some aspath) :
    NoLoop cfg pattrs ↔ hasLocalAs aspath cfg.localAs = false := by
  simp [NoLoop, hpath]

theorem extractAndHandleMpbgpNewPaths_endsIff {nextHop : Bytes}
    (hreach : pattrs.mpReachNlri = some (afi, safi, nextHop, nlris))
    (hrf : (⟨afi, safi⟩ : RouteFamily) ∈ rfMap) (hpath : pattrs.asPath = some aspath) :
    (extractAndHandleMpbgpNewPaths cfg pattrs).EndsIff fun _ =>
      Used cfg ⟨afi, safi⟩ pattrs → ∀ nlri ∈ nlris, RouteOk cfg pattrs.asPath nlri := by
  rw [extractAndHandleMpbgpNewPaths, hreach]
  dsimp only
  rw [getRf_bind hrf]
  unfold Used
  rw [noLoop_iff hpath]
  split
  · rename_i hsupported
    exact PyM.EndsIff.pure.congr fun _ => by simp [hsupported]
  · split
    · simp_all
    · rename_i hsupported _ aspath' hpath'
      obtain rfl : aspath' = aspath := by simpa [hpath] using hpath'.symm
      split
      · rename_i hloop
        exact PyM.EndsIff.pure.congr fun _ => by simp [hloop]
      · split
        · exact PyM.EndsIff.pure.congr fun _ => by grind
        · exact handleNewPaths_endsIff.congr fun _ => by grind

theorem extractAndHandleMpbgpWithdraws_endsIff
    (hunreach : pattrs.mpUnreachNlri = some (afi, safi, nlris))
    (hrf : (⟨afi, safi⟩ : RouteFamily) ∈ rfMap) :
    (extractAndHandleMpbgpWithdraws cfg pattrs).EndsIff fun s =>
      ⟨afi, safi⟩ ∈ supportedGlobalRf →
        (nlris = [] → ⟨afi, safi⟩ = rfRTCUC → s.initRtcNlriPath.isSome) ∧
          ∀ nlri ∈ nlris, RouteOk cfg none nlri := by
  rw [extractAndHandleMpbgpWithdraws, hunreach]
  dsimp only
  rw [getRf_bind hrf]
  split
  · rename_i hsupported
    exact handleWithdraws_endsIff.congr fun _ => by simp [hsupported]
  · rename_i hsupported
    exact PyM.EndsIff.pure.congr fun _ => by simp [hsupported]

theorem extractAndHandleBgp4NewPaths_endsIff :
    (extractAndHandleBgp4NewPaths cfg pattrs nlris).EndsIff fun _ =>
      (nlris ≠ [] → pattrs.asPath.isSome ∧ (NoLoop cfg pattrs → pattrs.nextHop.isSome)) ∧
        (NoLoop cfg pattrs → ∀ nlri ∈ nlris, RouteOk cfg pattrs.asPath nlri) := by
  cases hnlris : nlris with
  | nil => exact PyM.EndsIff.pure.congr fun _ => by simp
  | cons nlri nlris =>
    unfold extractAndHandleBgp4NewPaths
    dsimp only
    split
    · rename_i hpath
      exact fun _ => iff_of_false (by simp [throw_apply]) (by simp [hpath])
    · rename_i aspath hpath
      rw [noLoop_iff hpath]
      split
      · rename_i hloop
        exact PyM.EndsIff.pure.congr fun _ => by simp [hpath, hloop]
      · rename_i hloop
        split
        · rename_i hnextHop
          exact fun _ => iff_of_false (by simp [throw_apply])
            (by simp [hnextHop, hloop])
        · rename_i hnextHop
          exact handleNewPaths_endsIff.congr fun _ => by simp [hpath, hloop, hnextHop]

/-! The first routine leaves it open whether the route targets are still collected. -/

theorem receive_initRtcNlriPath (s : State) (nlriStr : List Char) (path : Path) (block : Bool) :
    (s.receive nlriStr rf path block).initRtcNlriPath.isSome = s.initRtcNlriPath.isSome := by
  unfold State.receive State.learn
  cases hrtc : s.initRtcNlriPath <;> grind

variable {b : Bool}

theorem handleNewPath_keeps :
    (handleNewPath cfg rf pattrs nlri).Keeps fun s => s.initRtcNlriPath.isSome = b := by
  refine .bind (.bind .lift fun _ => .bind .get fun _ => .bind (.modify fun _ h => h) fun _ =>
    .pure) fun path => .bind .lift fun block => .modify fun s hs => ?_
  exact (receive_initRtcNlriPath s _ path block).trans hs

theorem extractAndHandleMpbgpNewPaths_keeps :
    (extractAndHandleMpbgpNewPaths cfg pattrs).Keeps fun s => s.initRtcNlriPath.isSome = b := by
  unfold extractAndHandleMpbgpNewPaths
  split
  · exact .pure
  · refine .bind .lift fun rf => ?_
    split
    · exact .pure
    · split
      · exact fun _ h => h
      · split
        · exact .pure
        · split
          · exact .pure
          · exact .bind (.forM fun _ => handleNewPath_keeps) fun _ => .modify fun _ h => h

end Processing

section Message

variable {msg : BgpUpdate}

theorem routeOk_iff {rf : RouteFamily} {nlri : Nlri} (hfamily : nlri.routeFamily = some rf)
    (hrf : rf ∈ supportedGlobalRf) :
    RouteOk cfg asPath nlri ↔ FiltersApply nlri asPath cfg.inFilters :=
  and_iff_right ⟨rf, hrf, hfamily⟩

variable {nlris : List Nlri}

theorem routeOk_iff_of_ofFamily (h : OfFamily afi safi nlris)
    (hrf : (⟨afi, safi⟩ : RouteFamily) ∈ rfMap)
    (hsupported : (⟨afi, safi⟩ : RouteFamily) ∈ supportedGlobalRf) :
    (∀ nlri ∈ nlris, RouteOk cfg asPath nlri) ↔
      ∀ nlri ∈ nlris, FiltersApply nlri asPath cfg.inFilters :=
  forall₂_congr fun nlri hnlri =>
    routeOk_iff ((h nlri hnlri).trans (classFamily_getAddrClass hrf)) hsupported

theorem routeOk_iff_of_ipv4 (h : ∀ nlri ∈ nlris, nlri.routeFamily = some rfIPv4UC) :
    (∀ nlri ∈ nlris, RouteOk cfg asPath nlri) ↔
      ∀ nlri ∈ nlris, FiltersApply nlri asPath cfg.inFilters :=
  forall₂_congr fun nlri hnlri => routeOk_iff (h nlri hnlri) (by decide)

/-- What `Processable` says about MP_REACH_NLRI. -/
def ReachOk (cfg : UpdateConfig) (pattrs : PathAttrMap) : Prop :=
  ∀ afi safi nextHop nlris, pattrs.mpReachNlri = some (afi, safi, nextHop, nlris) →
    Used cfg ⟨afi, safi⟩ pattrs → ∀ nlri ∈ nlris, FiltersApply nlri pattrs.asPath cfg.inFilters

/-- What `Processable` says about MP_UNREACH_NLRI. -/
def UnreachOk (cfg : UpdateConfig) (pattrs : PathAttrMap) (collecting : Bool) : Prop :=
  (pattrs.mpUnreachNlri = some (rfRTCUC.afi, rfRTCUC.safi, []) → collecting = true) ∧
  ∀ afi safi nlris, pattrs.mpUnreachNlri = some (afi, safi, nlris) →
    ⟨afi, safi⟩ ∈ supportedGlobalRf → ∀ nlri ∈ nlris, FiltersApply nlri none cfg.inFilters

theorem mpbgpNewPaths_endsIff (hkinds : WellKinded msg) (hcheck : Checkable cfg msg)
    (hvalid : Valid cfg msg) :
    (extractAndHandleMpbgpNewPaths cfg (pathattrMap msg)).EndsIff fun _ =>
      ReachOk cfg (pathattrMap msg) := by
  unfold ReachOk
  cases hreach : (pathattrMap msg).mpReachNlri with
  | none =>
    rw [extractAndHandleMpbgpNewPaths, hreach]
    exact PyM.EndsIff.pure.congr fun _ => by simp
  | some reach =>
    obtain ⟨afi, safi, nextHop, nlris⟩ := reach
    obtain ⟨⟨hrf, -⟩, -⟩ := hcheck.2.1 afi safi nextHop nlris hreach
    obtain ⟨⟨-, aspath, hpath, -⟩, -⟩ := hvalid.1 afi safi nextHop nlris hreach
    refine (extractAndHandleMpbgpNewPaths_endsIff hreach hrf hpath).congr fun _ => ?_
    have hroutes (hused : Used cfg ⟨afi, safi⟩ (pathattrMap msg)) :
        (∀ nlri ∈ nlris, RouteOk cfg (pathattrMap msg).asPath nlri) ↔
          ∀ nlri ∈ nlris, FiltersApply nlri (pathattrMap msg).asPath cfg.inFilters :=
      routeOk_iff_of_ofFamily (hkinds.reach afi safi nextHop nlris hreach) hrf hused.1
    grind

theorem mpbgpWithdraws_endsIff (hkinds : WellKinded msg) (hcheck : Checkable cfg msg) :
    (extractAndHandleMpbgpWithdraws cfg (pathattrMap msg)).EndsIff fun s =>
      UnreachOk cfg (pathattrMap msg) s.initRtcNlriPath.isSome := by
  unfold UnreachOk
  cases hunreach : (pathattrMap msg).mpUnreachNlri with
  | none =>
    rw [extractAndHandleMpbgpWithdraws, hunreach]
    exact PyM.EndsIff.pure.congr fun _ => by simp
  | some unreach =>
    obtain ⟨afi, safi, nlris⟩ := unreach
    obtain ⟨hrf, -⟩ := hcheck.1 afi safi nlris hunreach
    refine (extractAndHandleMpbgpWithdraws_endsIff hunreach hrf).congr fun s => ?_
    have hroutes (hsupported : (⟨afi, safi⟩ : RouteFamily) ∈ supportedGlobalRf) :
        (∀ nlri ∈ nlris, RouteOk cfg none nlri) ↔
          ∀ nlri ∈ nlris, FiltersApply nlri none cfg.inFilters :=
      routeOk_iff_of_ofFamily (hkinds.unreach afi safi nlris hunreach) hrf hsupported
    have hrtc : rfRTCUC ∈ supportedGlobalRf := by decide
    have heq : (⟨afi, safi⟩ : RouteFamily) = rfRTCUC ↔
        afi = rfRTCUC.afi ∧ safi = rfRTCUC.safi := by simp [rfRTCUC]
    grind

variable {s : State}

theorem processable_iff : Processable cfg s msg ↔
    ReachOk cfg (pathattrMap msg) ∧
      UnreachOk cfg (pathattrMap msg) s.initRtcNlriPath.isSome ∧
      ((msg.nlri ≠ [] → (pathattrMap msg).asPath.isSome ∧
          (NoLoop cfg (pathattrMap msg) → (pathattrMap msg).nextHop.isSome)) ∧
        (NoLoop cfg (pathattrMap msg) →
          ∀ nlri ∈ msg.nlri, FiltersApply nlri (pathattrMap msg).asPath cfg.inFilters)) ∧
      ∀ nlri ∈ msg.withdrawnRoutes, FiltersApply nlri none cfg.inFilters := by
  constructor
  · intro h
    exact ⟨h.reach, ⟨h.eor, h.unreach⟩, ⟨h.mandatory, h.nlri⟩, h.withdrawn⟩
  · rintro ⟨reach, ⟨eor, unreach⟩, ⟨mandatory, nlri⟩, withdrawn⟩
    exact ⟨reach, eor, unreach, mandatory, nlri, withdrawn⟩

theorem processUpdateMsg_endsIff (hkinds : WellKinded msg) (hcheck : Checkable cfg msg)
    (hvalid : Valid cfg msg) :
    (processUpdateMsg cfg msg).EndsIff fun s => Processable cfg s msg := by
  have hnew := @extractAndHandleBgp4NewPaths_endsIff cfg (pathattrMap msg) msg.nlri
  have hwithdraws : (handleWithdraws cfg rfIPv4UC msg.withdrawnRoutes).EndsIff fun _ =>
      ∀ nlri ∈ msg.withdrawnRoutes, RouteOk cfg none nlri :=
    handleWithdraws_endsIff.congr fun _ => and_iff_right fun _ h => absurd h (by decide)
  have hplain := hnew.seq fun _ => hwithdraws
  rw [routeOk_iff_of_ipv4 hkinds.nlri, routeOk_iff_of_ipv4 hkinds.withdrawn] at hplain
  have hrest := (mpbgpWithdraws_endsIff hkinds hcheck).bind fun _ _ s' _ => hplain s'
  refine ((mpbgpNewPaths_endsIff hkinds hcheck hvalid).bind fun s a s' hs => ?_).congr
    fun s => processable_iff.symm
  have hkeep : s'.initRtcNlriPath.isSome = s.initRtcNlriPath.isSome := by
    have hfinal :=
      (@extractAndHandleMpbgpNewPaths_keeps cfg (pathattrMap msg) _).final (s := s) rfl
    rwa [hs] at hfinal
  rw [← hkeep]
  exact hrest s'

theorem handled_handleUpdateMsg :
    Handled (handleUpdateMsg cfg msg s).1 ↔ Handled (validateUpdateMsg cfg msg) ∧
      (validateUpdateMsg cfg msg = .ok true → ∃ u,
        (processUpdateMsg cfg msg { s with recvUpdates := s.recvUpdates + 1 }).1 = .ok u) := by
  unfold handleUpdateMsg
  rcases validateUpdateMsg cfg msg with e | _ | _
  · simp [Handled]
  · simp [handled_ok]
  · simpa [handled_ok] using handled_liftPy

/-- A peer that is asked to check the first AS, with a filter that denies 10.0.0.0/8. -/
def exampleConfig : UpdateConfig where
  toRibConfig := neighbor
  checkFirstAs := true
  hostBindIp := none
  sentCaps := [⟨1, 4, .multiprotocol 1 0 1⟩]
  recvOptParam := [.capability ⟨1, 4, .multiprotocol 1 0 1⟩]
  inFilters := [.ofPrefix denyTen]
  interestedRts := []

/-- 11.0.0.0/8 is withdrawn, and 10.0.0.0/8 and 12.0.0.0/8 are announced. -/
def threeRoutes : BgpUpdate :=
  ⟨2, [.ip 8 [11, 0, 0, 0]], 18,
    [⟨0x40, 1, 1, .origin 0⟩, ⟨0x40, 2, 4, .asPath [.asSequence [65001]]⟩,
    ⟨0x40, 3, 4, .nextHop [192, 0, 2, 1]⟩], [.ip 8 [10, 0, 0, 0], .ip 8 [12, 0, 0, 0]]⟩

/-- An announcement of 10.0.0.0/8 next to an MP_UNREACH_NLRI that withdraws nothing: no attribute is
asked for by the validation, and the AS_PATH is then `None`. -/
def unreachAndNlri : BgpUpdate :=
  ⟨0, [], 6, [⟨0x80, 15, 3, .mpUnreachNlri 1 1 []⟩], [.ip 8 [10, 0, 0, 0]]⟩

/-- ORIGIN, an AS_PATH that begins with a set, and NEXT_HOP, for 10.0.0.0/8. -/
def leadingAsSet : BgpUpdate :=
  ⟨0, [], 18, [⟨0x40, 1, 1, .origin 0⟩, ⟨0x40, 2, 4, .asPath [.asSet [65001]]⟩,
    ⟨0x40, 3, 4, .nextHop [192, 0, 2, 1]⟩], [.ip 8 [10, 0, 0, 0]]⟩

end Message

/-! ### Runs of messages -/

section Runs

/-- The path was given to the tables, or it waits for the end of the first route targets. -/
def State.Passed (s : State) (path : Path) : Prop :=
  .learnPath path ∈ s.calls ∨ path ∈ s.initRtcNlriPath.getD []

variable (cfg) in
/-- There is an AS_PATH, and the local AS is not in it. -/
def LoopFree (path : Path) : Prop :=
  ∃ aspath, path.pathAttrMap.asPath = some aspath ∧ hasLocalAs aspath cfg.localAs = false

variable (cfg) in
/-- Routes are kept and announcements passed on only without loops, and a route that is kept is
passed on unless a filter blocks it. -/
structure Sound (s : State) : Prop where
  rib : ∀ nlriStr route, s.adjRibIn.lookup nlriStr = some route →
    LoopFree cfg route.path ∧ (route.filtered = false → s.Passed route.path)
  passed : ∀ path, s.Passed path → path.isWithdraw = true ∨ LoopFree cfg path

variable {s : State} {path : Path} {nlriStr : List Char} {block : Bool} {pattrs : PathAttrMap}
  {nlris : List Nlri}

theorem Sound.receive (h : Sound cfg s) (hpath : LoopFree cfg path) :
    Sound cfg (s.receive nlriStr rf path block) := by
  have hpassed : ∀ path', (s.receive nlriStr rf path block).Passed path' ↔
      s.Passed path' ∨ block = false ∧ path' = path := by
    unfold State.receive State.learn State.Passed
    cases block <;> cases s.initRtcNlriPath <;> grind
  have hrib : (s.receive nlriStr rf path block).adjRibIn =
      s.adjRibIn.insert nlriStr ⟨path, block⟩ := by
    unfold State.receive State.learn
    grind
  constructor
  · grind [h.rib, Dict.lookup_insert]
  · grind [h.passed]

theorem Sound.withdraw (h : Sound cfg s) (hpath : path.isWithdraw = true) :
    Sound cfg (s.withdraw nlriStr path block) := by
  have hpassed : ∀ path', (s.withdraw nlriStr path block).Passed path' ↔
      s.Passed path' ∨ block = false ∧ path' = path := by
    unfold State.withdraw State.learn State.Passed
    grind
  have hrib : (s.withdraw nlriStr path block).adjRibIn = s.adjRibIn.erase nlriStr := by
    unfold State.withdraw State.learn
    grind
  constructor
  · grind [h.rib, Dict.lookup_erase]
  · grind [h.passed]

theorem newPath_sound {make : Nat → Nat → Path} {f : Path → PyM State Unit}
    (hf : ∀ versionNum id, (f (make versionNum id)).Keeps (Sound cfg)) :
    (newPath nlri make >>= f).Keeps (Sound cfg) := by
  intro s h
  unfold newPath
  cases pathClass nlri with
  | error e => exact h
  | ok => exact hf _ _ _ ⟨h.rib, h.passed⟩

theorem handleNewPaths_sound (hpath : pattrs.asPath = some aspath)
    (hloop : ¬hasLocalAs aspath cfg.localAs = true) :
    (handleNewPaths cfg rf pattrs nlris).Keeps (Sound cfg) :=
  .bind (.forM fun _ => newPath_sound fun _ _ => .bind .lift fun _ => .modify fun _ h =>
    h.receive ⟨aspath, hpath, by simpa using hloop⟩) fun _ => .modify fun _ h =>
    ⟨h.rib, h.passed⟩

theorem handleWithdraws_sound : (handleWithdraws cfg rf nlris).Keeps (Sound cfg) := by
  unfold handleWithdraws
  split
  · intro s h
    unfold handleEor
    rw [get_bind]
    split_ifs
    · cases hpaths : s.initRtcNlriPath with
      | none => exact h
      | some paths =>
        constructor
        · simpa [State.Passed, hpaths] using h.rib
        · simpa [State.Passed, hpaths] using h.passed
    · exact h
  · exact .forM fun _ => newPath_sound fun _ _ => .bind .lift fun _ =>
      .modify fun _ h => h.withdraw rfl

theorem extractAndHandleMpbgpNewPaths_sound :
    (extractAndHandleMpbgpNewPaths cfg pattrs).Keeps (Sound cfg) := by
  unfold extractAndHandleMpbgpNewPaths
  split
  · exact .pure
  · refine .bind .lift fun rf => ?_
    -- every branch but the last leaves the state alone
    repeat' split
    all_goals first
      | exact handleNewPaths_sound ‹_› ‹_›
      | exact fun _ h => h

theorem extractAndHandleBgp4NewPaths_sound :
    (extractAndHandleBgp4NewPaths cfg pattrs nlris).Keeps (Sound cfg) := by
  unfold extractAndHandleBgp4NewPaths
  repeat' split
  all_goals first
    | exact handleNewPaths_sound ‹_› ‹_›
    | exact fun _ h => h

theorem processUpdateMsg_sound (msg : BgpUpdate) :
    (processUpdateMsg cfg msg).Keeps (Sound cfg) := by
  refine .bind extractAndHandleMpbgpNewPaths_sound fun _ => .bind ?_ fun _ =>
    .bind extractAndHandleBgp4NewPaths_sound fun _ => handleWithdraws_sound
  unfold extractAndHandleMpbgpWithdraws
  split
  · exact .pure
  · refine .bind .lift fun rf => ?_
    split_ifs
    · exact handleWithdraws_sound
    · exact .pure

/-- Whatever messages come, and whether or not their handlers raise. -/
theorem sound_handleUpdateMsgs (msgs : List BgpUpdate) :
    Sound cfg (msgs.foldl (fun s msg => (handleUpdateMsg cfg msg s).2) {}) := by
  refine foldlRecOn msgs _ ⟨by simp, by simp [State.Passed]⟩ fun s h msg _ => ?_
  have h' : Sound cfg { s with recvUpdates := s.recvUpdates + 1 } := ⟨h.rib, h.passed⟩
  unfold handleUpdateMsg
  split
  · exact h'
  · exact h'
  · exact (processUpdateMsg_sound msg).final h'

end Runs

end BebaCtrl.Bgp.UpdateHandler
