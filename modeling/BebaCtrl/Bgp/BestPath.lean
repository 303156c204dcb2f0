import Mathlib.Data.Prod.Lex
import BebaCtrl.Bgp.Attributes
import BebaCtrl.Lib.Selection

/-!
# Best path selection

`computeBestPath` compares two paths in ten steps, `computeBestKnownPath` folds a list with it. All
steps but that on LOCAL_PREF compare one number of each path, so together they compare a rank.
LOCAL_PREF is compared only when both paths carry it, which is the comparison of `Selection`.
-/

namespace BebaCtrl.Bgp

open List Option

/-- A peer with an established session, as far as a path comparison reads it. Peers are compared by
identity, which is `index`. -/
structure Peer where
  index : Nat
  remoteAs : Nat
  /-- the identifiers of the OPEN received from the peer and of the one sent to it -/
  recvBgpIdentifier : Nat
  sentBgpIdentifier : Nat
  deriving DecidableEq, Repr

/-- The kinds of sources of the paths of a table. A source that has no attributes of a peer raises
when one is read. -/
class PathSource (σ : Type) where
  asPeer : σ → PyResult Peer

instance : PathSource Peer := ⟨.ok⟩

/-- Known paths are compared by identity, which is `id`. A withdrawal has the `id` of the path it is
cloned from, and no two withdrawals are one object. The source of a local path is `None`, the others
are peers but in VRF tables. -/
structure Path (σ : Type := Peer) where
  id : Nat
  source : Option σ
  nlri : Nlri
  sourceVersionNum : Nat
  pathAttrMap : PathAttrMap := {}
  isWithdraw : Bool := false
  deriving DecidableEq, Repr

inductive BestPathReason where
  | unknown
  | onlyPath
  | reachableNextHop
  | highestWeight
  | localPref
  | localOrigin
  | asPath
  | origin
  | med
  | asn
  | igpCost
  | routerId
  deriving DecidableEq, Repr

/-! ## The steps -/

section Steps

variable {σ : Type} [DecidableEq σ] [PathSource σ]

def cmpByReachableNh (_ _ : Path σ) : Option (Path σ) := none

def cmpByHigestWg (_ _ : Path σ) : Option (Path σ) := none

def cmpByLocalPref (path1 path2 : Path σ) : Option (Path σ) :=
  match path1.pathAttrMap.localPref, path2.pathAttrMap.localPref with
  | some lp1, some lp2 => if lp1 > lp2 then some path1 else if lp2 > lp1 then some path2 else none
  | _, _ => none

def cmpByLocalOrigin (path1 path2 : Path σ) : Option (Path σ) :=
  if path1.source = path2.source then none
  else if path1.source = none then some path1
  else if path2.source = none then some path2
  else none

def cmpByAspath (path1 path2 : Path σ) : PyResult (Option (Path σ)) :=
  match path1.pathAttrMap.asPath, path2.pathAttrMap.asPath with
  | some asPath1, some asPath2 =>
    let l1 := getAsPathLen asPath1
    let l2 := getAsPathLen asPath2
    .ok (if l1 > l2 then some path2 else if l2 > l1 then some path1 else none)
  | _, _ => .error .assertionError

def getOriginPref (origin : Nat) : Nat :=
  if origin = 0 then 3 else if origin = 1 then 2 else if origin = 2 then 1 else 0

def cmpByOrigin (path1 path2 : Path σ) : PyResult (Option (Path σ)) :=
  match path1.pathAttrMap.origin, path2.pathAttrMap.origin with
  | some origin1, some origin2 =>
    if origin1 = origin2 then .ok none
    else
      let origin1 := getOriginPref origin1
      let origin2 := getOriginPref origin2
      .ok (if origin1 = origin2 then none else if origin1 > origin2 then some path1 else some path2)
  | _, _ => .error .assertionError

def getPathMed (path : Path σ) : Nat := path.pathAttrMap.multiExitDisc.getD 0

def cmpByMed (path1 path2 : Path σ) : Option (Path σ) :=
  let med1 := getPathMed path1
  let med2 := getPathMed path2
  if med1 = med2 then none else if med1 < med2 then some path1 else some path2

/-- The peer whose attributes are read, if the source is not `None`. -/
def peerOf (source : Option σ) : PyResult (Option Peer) :=
  match source with
  | none => .ok none
  | some s => (PathSource.asPeer s).map some

def getPathSourceAsn (localAsn : Nat) (source : Option Peer) : Nat :=
  match source with
  | none => localAsn
  | some peer => peer.remoteAs

def cmpByAsn (localAsn : Nat) (path1 path2 : Path σ) : PyResult (Option (Path σ)) := do
  let p1Asn := getPathSourceAsn localAsn (← peerOf path1.source)
  let p2Asn := getPathSourceAsn localAsn (← peerOf path2.source)
  return if p1Asn = localAsn ∧ p2Asn ≠ localAsn then some path2
    else if p2Asn = localAsn ∧ p1Asn ≠ localAsn then some path1
    else none

def cmpByIgpCost (_ _ : Path σ) : Option (Path σ) := none

def getRouterId (source : Option Peer) (localBgpId : Nat) : Nat :=
  match source with
  | none => localBgpId
  | some peer => peer.recvBgpIdentifier

def cmpByRouterId (localAsn : Nat) (path1 path2 : Path σ) : PyResult (Option (Path σ)) := do
  let source1 ← peerOf path1.source
  let source2 ← peerOf path2.source
  -- one of the peers gives the local identifier
  match source1 <|> source2 with
  | none => .ok none
  | some peer =>
    let isEbgp1 := getPathSourceAsn localAsn source1 ≠ localAsn
    let isEbgp2 := getPathSourceAsn localAsn source2 ≠ localAsn
    if isEbgp1 ∧ isEbgp2 then .ok none
    else if (isEbgp1 ∧ ¬isEbgp2) ∨ (¬isEbgp1 ∧ isEbgp2) then .error .valueError
    else
      let routerId1 := getRouterId source1 peer.sentBgpIdentifier
      let routerId2 := getRouterId source2 peer.sentBgpIdentifier
      .ok (if routerId1 = routerId2 then none
        else if routerId1 < routerId2 then some path1 else some path2)

/-- The first step that decides. -/
def firstDecided {π : Type} : List (PyResult (Option π) × BestPathReason) →
    PyResult (Option π × BestPathReason)
  | [] => .ok (none, .unknown)
  | (step, reason) :: steps => do
    match ← step with
    | some path => return (some path, reason)
    | none => firstDecided steps

def computeBestPath (localAsn : Nat) (path1 path2 : Path σ) :
    PyResult (Option (Path σ) × BestPathReason) :=
  firstDecided
    [(.ok (cmpByReachableNh path1 path2), .reachableNextHop),
      (.ok (cmpByHigestWg path1 path2), .highestWeight),
      (.ok (cmpByLocalPref path1 path2), .localPref),
      (.ok (cmpByLocalOrigin path1 path2), .localOrigin),
      (cmpByAspath path1 path2, .asPath),
      (cmpByOrigin path1 path2, .origin),
      (.ok (cmpByMed path1 path2), .med),
      (cmpByAsn localAsn path1 path2, .asn),
      (.ok (cmpByIgpCost path1 path2), .igpCost),
      (cmpByRouterId localAsn path1 path2, .routerId)]

end Steps

def computeBestOf (localAsn : Nat) : Path → BestPathReason → List Path →
    PyResult (Path × BestPathReason)
  | currentBestPath, reason, [] => .ok (currentBestPath, reason)
  | currentBestPath, _, nextPath :: paths => do
    let (newBestPath, reason) ← computeBestPath localAsn currentBestPath nextPath
    computeBestOf localAsn (newBestPath.getD currentBestPath) reason paths

/-- `Destination._compute_best_known_path` -/
def computeBestKnownPath (localAsn : Nat) : List Path → PyResult (Path × BestPathReason)
  | [] => .error (.other "BgpProcessorError")
  | path :: paths => computeBestOf localAsn path .onlyPath paths

@[simp] theorem peerOf_peer (source : Option Peer) : peerOf source = .ok source := by
  cases source <;> rfl

/-! The best path is one of the list. -/

variable {reason : BestPathReason} {path : Path}

theorem firstDecided_mem {steps : List (PyResult (Option Path) × BestPathReason)}
    (h : firstDecided steps = .ok (some path, reason)) :
    ∃ reason', (.ok (some path), reason') ∈ steps := by
  induction steps with
  | nil => cases h
  | cons s steps ih =>
    obtain ⟨step, reason₁⟩ := s
    obtain ⟨decided, rfl, h⟩ := bind_eq_ok.1 h
    cases decided with
    | some p =>
      cases h
      exact ⟨_, mem_cons_self⟩
    | none =>
      obtain ⟨reason', hmem⟩ := ih h
      exact ⟨reason', mem_cons_of_mem _ hmem⟩

variable {localAsn : Nat} {path1 path2 : Path}

theorem computeBestPath_mem (h : computeBestPath localAsn path1 path2 = .ok (some path, reason)) :
    path = path1 ∨ path = path2 := by
  obtain ⟨reason', hmem⟩ := firstDecided_mem h
  simp only [mem_cons, not_mem_nil, or_false, Prod.mk.injEq, Except.ok.injEq] at hmem
  rcases hmem with ⟨h, -⟩ | ⟨h, -⟩ | ⟨h, -⟩ | ⟨h, -⟩ | ⟨h, -⟩ |
    ⟨h, -⟩ | ⟨h, -⟩ | ⟨h, -⟩ | ⟨h, -⟩ | ⟨h, -⟩
  · cases h
  · cases h
  · unfold cmpByLocalPref at h
    grind
  · unfold cmpByLocalOrigin at h
    grind
  · unfold cmpByAspath at h
    grind
  · unfold cmpByOrigin at h
    grind
  · unfold cmpByMed at h
    grind
  · simp only [cmpByAsn, peerOf_peer, ok_bind, pure_eq_ok] at h
    grind
  · cases h
  · simp only [cmpByRouterId, peerOf_peer, ok_bind] at h
    grind

variable {paths : List Path} {best : Path}

theorem computeBestOf_mem {current : Path} {reason reason' : BestPathReason}
    (h : computeBestOf localAsn current reason paths = .ok (best, reason')) :
    best ∈ current :: paths := by
  induction paths generalizing current reason with
  | nil =>
    cases h
    exact mem_cons_self
  | cons next paths ih =>
    obtain ⟨⟨decided, reason₁⟩, hstep, h⟩ := bind_eq_ok.1 h
    cases decided with
    | none => grind
    | some path =>
      rcases computeBestPath_mem hstep with rfl | rfl <;> grind

theorem computeBestKnownPath_mem (h : computeBestKnownPath localAsn paths = .ok (best, reason)) :
    best ∈ paths := by
  cases paths with
  | nil => cases h
  | cons path paths => exact computeBestOf_mem h

/-! ## The rank of a path -/

section Keys

variable {σ : Type}

/-- ORIGIN and AS_PATH are there. -/
def Mandatory (path : Path σ) : Prop :=
  path.pathAttrMap.origin.isSome ∧ path.pathAttrMap.asPath.isSome

def originRank (path : Path σ) : Nat := 3 - getOriginPref (path.pathAttrMap.origin.getD 0)

def asPathLen (path : Path σ) : Nat := getAsPathLen (path.pathAttrMap.asPath.getD [])

def localRank [DecidableEq σ] (path : Path σ) : Nat := if path.source = none then 0 else 1

/-- The path with the lower key. -/
def lower {κ : Type} [LinearOrder κ] (key1 key2 : κ) (path1 path2 : Path σ) : Option (Path σ) :=
  if key1 < key2 then some path1 else if key2 < key1 then some path2 else none

variable {κ : Type}

theorem lower_self [LinearOrder κ] (key : κ) (path1 path2 : Path σ) :
    lower key key path1 path2 = none := by
  simp [lower]

theorem lower_eq_none {a b : Nat} {path1 path2 : Path σ} (h : lower a b path1 path2 = none) :
    a = b := by
  unfold lower at h
  grind

theorem lower_lex [LinearOrder κ] (a b : Nat) (r s : κ) (path1 path2 : Path σ) :
    lower (toLex (a, r)) (toLex (b, s)) path1 path2 =
      (lower a b path1 path2).or (lower r s path1 path2) := by
  simp only [lower, Prod.Lex.toLex_lt_toLex]
  rcases lt_trichotomy a b with h | rfl | h
  · simp [h]
  · simp
  · simp [h, h.ne', not_lt.2 h.le]

end Keys

def IsEbgp (localAsn : Nat) (path : Path) : Prop := getPathSourceAsn localAsn path.source ≠ localAsn

instance (localAsn : Nat) (path : Path) : Decidable (IsEbgp localAsn path) :=
  inferInstanceAs (Decidable (_ ≠ _))

def asnRank (localAsn : Nat) (path : Path) : Nat := if IsEbgp localAsn path then 0 else 1

/-- Router identifiers count among paths of internal peers only. -/
def routerRank (localAsn : Nat) (path : Path) : Nat :=
  if IsEbgp localAsn path then 0 else getRouterId path.source 0

/-- What the steps after LOCAL_PREF compare, the lower the better. -/
def rank (localAsn : Nat) (path : Path) : Nat ×ₗ Nat ×ₗ Nat ×ₗ Nat ×ₗ Nat ×ₗ Nat :=
  toLex (localRank path, toLex (asPathLen path, toLex (originRank path,
    toLex (getPathMed path, toLex (asnRank localAsn path, routerRank localAsn path)))))

/-- The last two ranks, by the peer. -/
def ebgpRank (localAsn : Nat) (peer : Option Peer) : Nat :=
  if getPathSourceAsn localAsn peer ≠ localAsn then 0 else 1

def idRank (localAsn : Nat) (peer : Option Peer) : Nat :=
  if getPathSourceAsn localAsn peer ≠ localAsn then 0 else getRouterId peer 0

section Steps

variable {σ : Type}

theorem cmpByLocalOrigin_eq [DecidableEq σ] (path1 path2 : Path σ) :
    cmpByLocalOrigin path1 path2 = lower (localRank path1) (localRank path2) path1 path2 := by
  unfold cmpByLocalOrigin lower localRank
  grind

variable {path1 path2 : Path σ}

theorem cmpByAspath_eq (h1 : Mandatory path1) (h2 : Mandatory path2) :
    cmpByAspath path1 path2 = .ok (lower (asPathLen path1) (asPathLen path2) path1 path2) := by
  obtain ⟨as1, has1⟩ := isSome_iff_exists.1 h1.2
  obtain ⟨as2, has2⟩ := isSome_iff_exists.1 h2.2
  simp only [cmpByAspath, has1, has2, lower, asPathLen, getD_some]
  grind

theorem cmpByOrigin_eq (h1 : Mandatory path1) (h2 : Mandatory path2) :
    cmpByOrigin path1 path2 = .ok (lower (originRank path1) (originRank path2) path1 path2) := by
  obtain ⟨o1, ho1⟩ := isSome_iff_exists.1 h1.1
  obtain ⟨o2, ho2⟩ := isSome_iff_exists.1 h2.1
  have hle : ∀ o, getOriginPref o ≤ 3 := by
    unfold getOriginPref
    grind
  simp only [cmpByOrigin, ho1, ho2, lower, originRank, getD_some]
  grind

theorem cmpByMed_eq (path1 path2 : Path σ) :
    cmpByMed path1 path2 = lower (getPathMed path1) (getPathMed path2) path1 path2 := by
  unfold cmpByMed lower
  grind

variable [PathSource σ] {localAsn : Nat} {peer1 peer2 : Option Peer}

section

variable (h1 : peerOf path1.source = .ok peer1) (h2 : peerOf path2.source = .ok peer2)
include h1 h2

theorem cmpByAsn_of_peers : cmpByAsn localAsn path1 path2 =
      .ok (lower (ebgpRank localAsn peer1) (ebgpRank localAsn peer2) path1 path2) := by
  simp only [cmpByAsn, h1, h2, lower, ebgpRank, ok_bind, pure_eq_ok]
  grind

/-- The last step is reached with two local paths or two peers of the same kind. -/
theorem cmpByRouterId_of_peers (hlocal : peer1 = none ↔ peer2 = none)
    (hasn : ebgpRank localAsn peer1 = ebgpRank localAsn peer2) :
    cmpByRouterId localAsn path1 path2 =
      .ok (lower (idRank localAsn peer1) (idRank localAsn peer2) path1 path2) := by
  simp only [cmpByRouterId, h1, h2, ok_bind]
  cases peer1 with
  | none =>
    obtain rfl := hlocal.1 rfl
    rw [lower_self]
    rfl
  | some peer1 =>
    cases peer2 with
    | none => cases hlocal.2 rfl
    | some peer2 =>
      unfold ebgpRank at hasn
      unfold idRank
      by_cases h : getPathSourceAsn localAsn (some peer1) = localAsn
      · have h' : getPathSourceAsn localAsn (some peer2) = localAsn := by grind
        simp only [h, h', getRouterId, lower]
        grind
      · have h' : getPathSourceAsn localAsn (some peer2) ≠ localAsn := by grind
        simp [h, h', lower_self]

end

end Steps

theorem cmpByAsn_eq (localAsn : Nat) (path1 path2 : Path) :
    cmpByAsn localAsn path1 path2 =
      .ok (lower (asnRank localAsn path1) (asnRank localAsn path2) path1 path2) :=
  cmpByAsn_of_peers (peerOf_peer _) (peerOf_peer _)

theorem cmpByRouterId_eq (hlocal : localRank path1 = localRank path2)
    (hasn : asnRank localAsn path1 = asnRank localAsn path2) :
    cmpByRouterId localAsn path1 path2 =
      .ok (lower (routerRank localAsn path1) (routerRank localAsn path2) path1 path2) := by
  refine cmpByRouterId_of_peers (peerOf_peer _) (peerOf_peer _) ?_ hasn
  unfold localRank at hlocal
  grind

/-! ## The comparison as a whole -/

theorem firstDecided_cons_ok {step : PyResult (Option Path)} {decided : Option Path}
    {reason : BestPathReason} {steps : List (PyResult (Option Path) × BestPathReason)}
    {rest : Option Path} (hstep : step = .ok decided)
    (hrest : decided = none → ∃ reason', firstDecided steps = .ok (rest, reason')) :
    ∃ reason', firstDecided ((step, reason) :: steps) = .ok (decided.or rest, reason') := by
  subst hstep
  cases decided with
  | some path => exact ⟨reason, rfl⟩
  | none => exact hrest rfl

/-- The comparison is decided by LOCAL_PREF if both paths have it, and else by the rank. -/
theorem computeBestPath_eq (localAsn : Nat) (h1 : Mandatory path1) (h2 : Mandatory path2) :
    ∃ reason, computeBestPath localAsn path1 path2 =
      .ok ((cmpByLocalPref path1 path2).or
        (lower (rank localAsn path1) (rank localAsn path2) path1 path2), reason) := by
  simp only [rank, lower_lex]
  -- the first two steps never decide
  refine @firstDecided_cons_ok _ (cmpByLocalPref path1 path2) .localPref _ _ rfl fun _ => ?_
  refine firstDecided_cons_ok (congrArg _ (cmpByLocalOrigin_eq path1 path2)) fun hlocal => ?_
  refine firstDecided_cons_ok (cmpByAspath_eq h1 h2) fun _ => ?_
  refine firstDecided_cons_ok (cmpByOrigin_eq h1 h2) fun _ => ?_
  refine firstDecided_cons_ok (congrArg _ (cmpByMed_eq path1 path2)) fun _ => ?_
  refine firstDecided_cons_ok (cmpByAsn_eq localAsn path1 path2) fun hasn => ?_
  -- nor does the one before the last
  rw [cmpByRouterId_eq (lower_eq_none hlocal) (lower_eq_none hasn)]
  cases lower (routerRank localAsn path1) (routerRank localAsn path2) path1 path2 with
  | none => exact ⟨.unknown, rfl⟩
  | some path => exact ⟨.routerId, rfl⟩

/-- LOCAL_PREF of a path. -/
def localPref (path : Path) : Option Nat := path.pathAttrMap.localPref

/-- The first path is better than the second. -/
def Better (localAsn : Nat) : Path → Path → Prop := Selection.Beats localPref (rank localAsn)

instance (localAsn : Nat) : DecidableRel (Better localAsn) :=
  inferInstanceAs (DecidableRel (Selection.Beats localPref (rank localAsn)))

theorem Better.asymm (h : Better localAsn path1 path2) :
    ¬Better localAsn path2 path1 := Selection.Beats.asymm h

theorem computeBestPath_ok (localAsn : Nat) (h1 : Mandatory path1) (h2 : Mandatory path2) :
    ∃ reason, computeBestPath localAsn path1 path2 =
      .ok (if Better localAsn path1 path2 then some path1
        else if Better localAsn path2 path1 then some path2 else none, reason) := by
  obtain ⟨reason, h⟩ := computeBestPath_eq localAsn h1 h2
  have hwinner : (cmpByLocalPref path1 path2).or
      (lower (rank localAsn path1) (rank localAsn path2) path1 path2) =
      if Better localAsn path1 path2 then some path1
      else if Better localAsn path2 path1 then some path2 else none := by
    unfold Better
    cases hl1 : path1.pathAttrMap.localPref with
    | none => simp [cmpByLocalPref, lower, Selection.Beats, localPref, hl1]
    | some lp1 =>
      cases hl2 : path2.pathAttrMap.localPref with
      | none => simp [cmpByLocalPref, lower, Selection.Beats, localPref, hl1, hl2]
      | some lp2 =>
        simp only [cmpByLocalPref, lower, Selection.Beats, localPref, hl1, hl2]
        rcases Nat.lt_trichotomy lp1 lp2 with hlt | rfl | hgt
        · simp [hlt, Nat.not_lt_of_gt hlt, hlt.ne]
        · simp
        · simp [hgt]
  exact ⟨reason, hwinner ▸ h⟩

/-- The fold over a list is the selection by `Better`. -/
theorem computeBestOf_ok (localAsn : Nat) (h : ∀ p ∈ path :: paths, Mandatory p)
    (reason : BestPathReason) :
    ∃ reason', computeBestOf localAsn path reason paths =
      .ok (Selection.select (Better localAsn) path paths, reason') := by
  induction paths generalizing path reason with
  | nil => exact ⟨reason, rfl⟩
  | cons next paths ih =>
    have hpath := h path (by simp)
    have hnext := h next (by simp)
    obtain ⟨reason₁, hstep⟩ := computeBestPath_ok localAsn hpath hnext
    have hcur : (if Better localAsn path next then some path
        else if Better localAsn next path then some next else none).getD path =
        if Better localAsn next path then next else path := by
      by_cases hb : Better localAsn path next
      · simp [hb, hb.asymm]
      · simp only [hb, if_false]
        split <;> rfl
    have hrest :
        ∀ p ∈ (if Better localAsn next path then next else path) :: paths, Mandatory p := by
      intro p hp
      rcases mem_cons.1 hp with rfl | hp
      · split <;> assumption
      · exact h p (by simp [hp])
    obtain ⟨reason₂, hfold⟩ := ih hrest reason₁
    refine ⟨reason₂, ?_⟩
    rw [computeBestOf, hstep]
    simp only [hcur, ok_bind]
    exact hfold

/-! ## Which lists have a best path -/

/-- The selected path is beaten by no path of the list, and every order of the list selects it or
one that the comparison cannot decide from it. -/
def SelectsBest (localAsn : Nat) (paths : List Path) : Prop :=
  ∃ best reason, computeBestKnownPath localAsn paths = .ok (best, reason) ∧
    (∀ path ∈ paths, ∀ reason', computeBestPath localAsn best path ≠ .ok (some path, reason')) ∧
    ∀ paths', paths'.Perm paths → ∃ best' reason',
      computeBestKnownPath localAsn paths' = .ok (best', reason') ∧
      (best' = best ∨ ∃ reason'', computeBestPath localAsn best best' = .ok (none, reason''))

theorem computeBestKnownPath_eq (localAsn : Nat) (hne : paths ≠ []) (h : ∀ p ∈ paths, Mandatory p) :
    ∃ best reason,
      Selection.choice (Better localAsn) paths = some best ∧ best ∈ paths ∧
        computeBestKnownPath localAsn paths = .ok (best, reason) := by
  cases paths with
  | nil => exact absurd rfl hne
  | cons path paths =>
    obtain ⟨reason, hfold⟩ := computeBestOf_ok localAsn h .onlyPath
    exact ⟨_, reason, rfl, Selection.select_mem path paths, hfold⟩

/-- What holds of the best path is said of the selected one, and the other way round. -/
theorem exists_computeBestKnownPath_iff (hne : paths ≠ []) (h : ∀ p ∈ paths, Mandatory p)
    {P Q : Path → Prop} (hPQ : ∀ best ∈ paths, P best ↔ Q best) :
    (∃ best reason, computeBestKnownPath localAsn paths = .ok (best, reason) ∧ P best) ↔
      ∃ best, Selection.choice (Better localAsn) paths = some best ∧ Q best := by
  obtain ⟨best, reason, hchoice, hmem, hbest⟩ := computeBestKnownPath_eq localAsn hne h
  constructor
  · rintro ⟨best', reason', hbest', hP⟩
    cases hbest.symm.trans hbest'
    exact ⟨best, hchoice, (hPQ best hmem).1 hP⟩
  · rintro ⟨best', hchoice', hQ⟩
    cases hchoice.symm.trans hchoice'
    exact ⟨best, reason, hbest, (hPQ best hmem).2 hQ⟩

theorem computeBestPath_some_iff (hbest : Mandatory best) (hpath : Mandatory path) :
    (∃ reason, computeBestPath localAsn best path = .ok (some path, reason)) ↔
      Better localAsn path best := by
  obtain ⟨reason, hstep⟩ := computeBestPath_ok localAsn hbest hpath
  rw [hstep]
  by_cases hb : Better localAsn best path
  · have hne : path ≠ best := by
      rintro rfl
      exact hb.asymm hb
    simp [hb, hb.asymm, hne.symm]
  · by_cases hp : Better localAsn path best <;> simp [hb, hp]

theorem computeBestPath_none_iff (h1 : Mandatory path1) (h2 : Mandatory path2) :
    (∃ reason, computeBestPath localAsn path1 path2 = .ok (none, reason)) ↔
      ¬Better localAsn path1 path2 ∧ ¬Better localAsn path2 path1 := by
  obtain ⟨reason, hstep⟩ := computeBestPath_ok localAsn h1 h2
  rw [hstep]
  by_cases hb : Better localAsn path1 path2
  · simp [hb]
  · by_cases hp : Better localAsn path2 path1 <;> simp [hb, hp]

theorem selectsBest_iff_sound (hne : paths ≠ []) (h : ∀ p ∈ paths, Mandatory p) :
    SelectsBest localAsn paths ↔ Selection.Sound (Better localAsn) paths := by
  refine exists_computeBestKnownPath_iff hne h fun best hmem => and_congr ?_ ?_
  · refine forall₂_congr fun p hp => ?_
    rw [← computeBestPath_some_iff (h best hmem) (h p hp), not_exists]
  · refine forall₂_congr fun paths' hperm => ?_
    refine exists_computeBestKnownPath_iff (fun hnil => hne (by simpa [hnil] using hperm))
      (fun p hp => h p (hperm.mem_iff.1 hp)) fun best' hmem' => ?_
    rw [computeBestPath_none_iff (h best hmem) (h best' (hperm.mem_iff.1 hmem'))]
    refine or_iff_right_of_imp ?_
    rintro rfl
    exact ⟨fun hb => hb.asymm hb, fun hb => hb.asymm hb⟩

/-- The paths of a list are torn between LOCAL_PREF and the later steps: the best path without
LOCAL_PREF is in the later steps as good as all paths of the highest LOCAL_PREF, and a path of a
lower LOCAL_PREF is as good as it and better than all of those. -/
def Torn (localAsn : Nat) (paths : List Path) : Prop :=
  Selection.Torn localPref (rank localAsn) paths

/-- The best path of a list of known paths is well defined exactly when the list is not torn. -/
theorem selectsBest_iff {localAsn : Nat} {paths : List Path} (hne : paths ≠ [])
    (h : ∀ p ∈ paths, Mandatory p) :
    SelectsBest localAsn paths ↔ ¬Torn localAsn paths := by
  rw [selectsBest_iff_sound hne h]
  exact Selection.sound_iff hne

/-- A path of an external peer with the given LOCAL_PREF and length of AS_PATH. -/
def externalPath (id : Nat) (localPref : Option Nat) (asPathLen : Nat) : Path where
  id := id
  source := some ⟨id, 65000 + id, id, 1⟩
  nlri := .ip 8 [10, 0, 0, 0]
  sourceVersionNum := 1
  pathAttrMap :=
    { origin := some 0
      asPath := some [.asSequence (List.replicate asPathLen (65000 + id))]
      localPref := localPref }

/-- The path of the highest LOCAL_PREF is better by AS_PATH than the one without. -/
theorem selectsBest_three : SelectsBest 65000
    [externalPath 1 (some 200) 1, externalPath 2 none 2, externalPath 3 (some 100) 3] := by
  refine (selectsBest_iff (by decide) (by simp [externalPath, Mandatory])).2 ?_
  rintro ⟨n, hn, m, -, hnone, -, -, -, htop⟩
  have hbest := (htop (externalPath 1 (some 200) 1) (by simp)
    ⟨200, rfl, by simp [localPref, externalPath]⟩).1
  have hworse : ¬rank 65000 (externalPath 2 none 2) ≤ rank 65000 (externalPath 1 (some 200) 1) := by
    decide
  simp only [List.mem_cons, List.not_mem_nil, or_false] at hn
  rcases hn with rfl | rfl | rfl
  · cases hnone
  · exact hworse hbest
  · cases hnone

/-- Of these the last path wins over the first by LOCAL_PREF and is selected, but the middle one is
better than it by AS_PATH. -/
theorem not_selectsBest_three : ¬SelectsBest 65000
    [externalPath 1 (some 100) 1, externalPath 2 none 2, externalPath 3 (some 200) 3] := by
  rintro ⟨best, reason, hbest, hunbeaten, -⟩
  have hselected : computeBestKnownPath 65000
      [externalPath 1 (some 100) 1, externalPath 2 none 2, externalPath 3 (some 200) 3] =
      .ok (externalPath 3 (some 200) 3, .localPref) := by decide +kernel
  have hbeaten : computeBestPath 65000 (externalPath 3 (some 200) 3) (externalPath 2 none 2) =
      .ok (some (externalPath 2 none 2), .asPath) := by decide +kernel
  cases hselected.symm.trans hbest
  exact hunbeaten (externalPath 2 none 2) (by simp) .asPath hbeaten

/-! ## Both orders of a comparison

In a VRF table a path can also come from another VRF of the speaker, and then its source is the
string `VRF_TABLE`. -/

/-- A source that is not `None`. -/
inductive VrfSource where
  | peer (peer : Peer)
  | vrfTable
  deriving DecidableEq, Repr

instance : PathSource VrfSource where
  asPeer
    | .peer peer => .ok peer
    | .vrfTable => .error .attributeError

/-- Two lists of steps decide, or do not decide, in the same way. -/
def Agree {π : Type} (steps1 steps2 : List (PyResult (Option π) × BestPathReason)) : Prop :=
  ∃ best reason1 reason2, firstDecided steps1 = .ok (best, reason1) ∧
    firstDecided steps2 = .ok (best, reason2)

theorem agree_cons {π : Type} {step1 step2 : PyResult (Option π)} {decided : Option π}
    {reason : BestPathReason} {steps1 steps2 : List (PyResult (Option π) × BestPathReason)}
    (h1 : step1 = .ok decided) (h2 : step2 = .ok decided)
    (hrest : decided = none → Agree steps1 steps2) :
    Agree ((step1, reason) :: steps1) ((step2, reason) :: steps2) := by
  subst h1 h2
  cases decided with
  | some path => exact ⟨some path, reason, reason, rfl, rfl⟩
  | none => exact hrest rfl

variable {σ : Type}

theorem agree_lower {path1 path2 : Path σ} {step1 step2 : PyResult (Option (Path σ))} {a b : Nat}
    {reason : BestPathReason} {steps1 steps2 : List (PyResult (Option (Path σ)) × BestPathReason)}
    (h1 : step1 = .ok (lower a b path1 path2)) (h2 : step2 = .ok (lower b a path2 path1))
    (hrest : a = b → Agree steps1 steps2) :
    Agree ((step1, reason) :: steps1) ((step2, reason) :: steps2) := by
  have hcomm : lower b a path2 path1 = lower a b path1 path2 := by
    unfold lower
    grind
  exact agree_cons h1 (hcomm ▸ h2) fun h => hrest (lower_eq_none h)

theorem cmpByLocalPref_comm (path1 path2 : Path σ) :
    cmpByLocalPref path1 path2 = cmpByLocalPref path2 path1 := by
  unfold cmpByLocalPref
  grind

/-- The steps before the one on the AS numbers of the peers do not decide. -/
def Tied (path1 path2 : Path VrfSource) : Prop :=
  cmpByLocalPref path1 path2 = none ∧ cmpByLocalOrigin path1 path2 = none ∧
    asPathLen path1 = asPathLen path2 ∧ originRank path1 = originRank path2 ∧
    getPathMed path1 = getPathMed path2

/-- The comparison returns in both orders, and with the same path or with none. -/
def Symmetric (localAsn : Nat) (path1 path2 : Path VrfSource) : Prop :=
  ∃ best reason1 reason2, computeBestPath localAsn path1 path2 = .ok (best, reason1) ∧
    computeBestPath localAsn path2 path1 = .ok (best, reason2)

section Symmetric

variable {localAsn : Nat} {path1 path2 : Path VrfSource}

theorem exists_peerOf {source : Option VrfSource} (h : source ≠ some .vrfTable) :
    ∃ peer, peerOf source = .ok peer ∧ (peer = none ↔ source = none) := by
  cases source with
  | none => exact ⟨none, rfl, by simp⟩
  | some s =>
    cases s with
    | peer p => exact ⟨some p, rfl, by simp⟩
    | vrfTable => exact absurd rfl h

theorem symmetric_of_not_tied (h1 : Mandatory path1) (h2 : Mandatory path2)
    (hrest : Tied path1 path2 → path1.source ≠ some .vrfTable ∧ path2.source ≠ some .vrfTable) :
    Symmetric localAsn path1 path2 := by
  -- the first two steps never decide
  refine @agree_cons _ _ _ (cmpByLocalPref path1 path2) .localPref _ _ rfl
    (congrArg _ (cmpByLocalPref_comm path2 path1)) fun hpref => ?_
  refine agree_lower (congrArg _ (cmpByLocalOrigin_eq path1 path2))
    (congrArg _ (cmpByLocalOrigin_eq path2 path1)) fun hlocal => ?_
  refine agree_lower (cmpByAspath_eq h1 h2) (cmpByAspath_eq h2 h1) fun haspath => ?_
  refine agree_lower (cmpByOrigin_eq h1 h2) (cmpByOrigin_eq h2 h1) fun horigin => ?_
  refine agree_lower (congrArg _ (cmpByMed_eq path1 path2)) (congrArg _ (cmpByMed_eq path2 path1))
    fun hmed => ?_
  -- from here on the attributes of the peers are read
  obtain ⟨hpeer1, hpeer2⟩ := hrest ⟨hpref,
    by rw [cmpByLocalOrigin_eq, hlocal, lower_self], haspath, horigin, hmed⟩
  obtain ⟨peer1, hpeer1, hnone1⟩ := exists_peerOf hpeer1
  obtain ⟨peer2, hpeer2, hnone2⟩ := exists_peerOf hpeer2
  have hiff : peer1 = none ↔ peer2 = none := by
    unfold localRank at hlocal
    grind
  refine agree_lower (cmpByAsn_of_peers hpeer1 hpeer2) (cmpByAsn_of_peers hpeer2 hpeer1)
    fun hasn => ?_
  refine @agree_cons _ _ _ none .igpCost _ _ rfl rfl fun _ => ?_
  exact agree_lower (cmpByRouterId_of_peers hpeer1 hpeer2 hiff hasn)
    (cmpByRouterId_of_peers hpeer2 hpeer1 hiff.symm hasn.symm)
    fun _ => ⟨none, .unknown, .unknown, rfl, rfl⟩

theorem computeBestPath_of_tied (h1 : Mandatory path1) (h2 : Mandatory path2)
    (htied : Tied path1 path2)
    (hvrf : path1.source = some .vrfTable ∨ path2.source = some .vrfTable) :
    computeBestPath localAsn path1 path2 = .error .attributeError := by
  obtain ⟨hpref, hlocal, haspath, horigin, hmed⟩ := htied
  have hasn : cmpByAsn localAsn path1 path2 = .error .attributeError := by
    unfold cmpByAsn
    rcases hvrf with hvrf | hvrf
    · rw [hvrf]
      rfl
    · rw [hvrf]
      cases path1.source with
      | none => rfl
      | some s => cases s <;> rfl
  simp [computeBestPath, firstDecided, cmpByReachableNh, cmpByHigestWg, hpref, hlocal,
    cmpByAspath_eq h1 h2, haspath, cmpByOrigin_eq h1 h2, horigin, cmpByMed_eq, hmed, lower_self,
    hasn]

/-- Two paths of a destination are compared without an exception and in both orders alike, unless
one of them is from another VRF and all steps before that on AS numbers leave them tied. -/
theorem symmetric_iff (h1 : Mandatory path1) (h2 : Mandatory path2) :
    Symmetric localAsn path1 path2 ↔
      ¬(Tied path1 path2 ∧
        (path1.source = some .vrfTable ∨ path2.source = some .vrfTable)) := by
  constructor
  · rintro ⟨best, reason1, reason2, h12, -⟩ ⟨htied, hvrf⟩
    rw [computeBestPath_of_tied h1 h2 htied hvrf] at h12
    cases h12
  · intro h
    refine symmetric_of_not_tied h1 h2 fun htied => ?_
    exact ⟨fun h' => h ⟨htied, .inl h'⟩, fun h' => h ⟨htied, .inr h'⟩⟩

end Symmetric

/-- A path of a VRF table with the attributes of a local path. -/
def vrfPath (id : Nat) (source : Option VrfSource) : Path VrfSource where
  id := id
  source := source
  nlri := .ip 8 [10, 0, 0, 0]
  sourceVersionNum := 0
  pathAttrMap := { origin := some 0, asPath := some [] }

theorem symmetric_local_imported :
    Symmetric 65000 (vrfPath 1 none) (vrfPath 2 (some .vrfTable)) := by
  refine (symmetric_iff ⟨rfl, rfl⟩ ⟨rfl, rfl⟩).2 ?_
  rintro ⟨⟨-, hlocal, -⟩, -⟩
  cases hlocal

/-- A prefix that two other VRFs of the speaker export. -/
theorem computeBestPath_two_imported :
    computeBestPath 65000 (vrfPath 1 (some .vrfTable)) (vrfPath 2 (some .vrfTable)) =
      .error .attributeError := by
  decide

end BebaCtrl.Bgp
