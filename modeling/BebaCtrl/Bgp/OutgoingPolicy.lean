import BebaCtrl.Bgp.Advertise
import BebaCtrl.Bgp.Session

/-!
# Which routes a peer is told of

`communicate_path` is a cascade of reasons not to send a path. The branch for route-server clients
stands in its middle and does not leave the function, so that the rules behind it are looked at for
such a client, too, and may put the path on its queue once more.
-/

namespace BebaCtrl.Bgp

/-- A peer in some state of its session. -/
structure SessionPeer where
  bgpState : Session.FsmState
  neighbor : Neighbor
  deriving DecidableEq, Repr

namespace SessionPeer

variable (localAsn : Nat) (p : SessionPeer) (path : Path)

def inEstablished : Bool := p.bgpState = .established

def communicatePath : PyResult (List Path) :=
  if !p.inEstablished then .ok [] else p.neighbor.communicatePath localAsn path

/-- The routes on the queue after the call; an exception is raised before the first one is put
there. -/
def enqueued : List Path :=
  match p.communicatePath localAsn path with
  | .ok routes => routes
  | .error _ => []

/-- The checks in front of the branch for route-server clients: the session can carry the path, the
filter of the peer does not stop it, and the peer is not the leftmost AS. -/
def letsThrough : Bool :=
  p.inEstablished && p.neighbor.accepts path &&
    match path.pathAttrMap.asPath with
    | none => true
    | some asPath => hasMatchingLeftmost asPath p.neighbor.peer.remoteAs matches .ok false

/-- What a peer may be told. -/
structure KeepsPolicy : Prop where
  length_le : (p.enqueued localAsn path).length ≤ 1
  session : p.enqueued localAsn path ≠ [] →
    p.bgpState = .established ∧ p.neighbor.isMpbgpCapValid path.nlri.routeFamily
  not_to_source : path.source = some p.neighbor.peer → p.enqueued localAsn path = []
  internal : p.neighbor.isRouteServerClient = false → ∀ source ∈ path.source,
    source.remoteAs = localAsn → p.neighbor.peer.remoteAs = localAsn → p.enqueued localAsn path = []
  noAdvertise : p.neighbor.isRouteServerClient = false → path.source ≠ none →
    path.hasCommAttr Bgp.noAdvertise → p.enqueued localAsn path = []
  noExport : p.neighbor.isRouteServerClient = false → path.source ≠ none →
    (path.hasCommAttr Bgp.noExport ∨ path.hasCommAttr noExportSubconfed) →
    p.neighbor.peer.remoteAs ≠ localAsn → p.enqueued localAsn path = []

variable {localAsn p path}

/-- The copy of the path that is sent if the rules behind the branch for clients allow it. -/
def withMed (q : Neighbor) (path : Path) : Path :=
  if q.multiExitDisc ≠ 0 ∧ path.pathAttrMap.multiExitDisc = none then
    path.cloneAndUpdateMed q.multiExitDisc
  else path

theorem enqueued_of_letsThrough (h : p.letsThrough path) :
    p.enqueued localAsn path =
      (if p.neighbor.isRouteServerClient then [path] else []) ++
        if p.neighbor.shares localAsn path then [withMed p.neighbor path] else [] := by
  simp only [letsThrough, Bool.and_eq_true] at h
  obtain ⟨⟨hstate, haccepts⟩, hloop⟩ := h
  have hshares : p.neighbor.shares localAsn (withMed p.neighbor path) =
      p.neighbor.shares localAsn path := by
    unfold withMed
    split <;> rfl
  rw [← hshares]
  cases hpath : path.pathAttrMap.asPath with
  | none =>
    simp only [enqueued, communicatePath, hstate, Neighbor.communicatePath, haccepts, hpath]
    rfl
  | some asPath =>
    rw [hpath] at hloop
    have hok : hasMatchingLeftmost asPath p.neighbor.peer.remoteAs = .ok false := by
      revert hloop
      dsimp only
      split <;> simp_all
    simp only [enqueued, communicatePath, hstate, Neighbor.communicatePath, haccepts, hpath, hok]
    rfl

theorem enqueued_of_not_letsThrough (h : p.letsThrough path = false) :
    p.enqueued localAsn path = [] := by
  revert h
  unfold letsThrough enqueued communicatePath Neighbor.communicatePath
  cases p.inEstablished with
  | false => exact fun _ => rfl
  | true =>
    cases p.neighbor.accepts path with
    | false => exact fun _ => rfl
    | true =>
      cases path.pathAttrMap.asPath with
      | none => simp
      | some asPath =>
        dsimp only
        rcases hasMatchingLeftmost asPath p.neighbor.peer.remoteAs with e | loop
        · exact fun _ => rfl
        · cases loop with
          | false => simp
          | true => exact fun _ => rfl

theorem letsThrough_of_enqueued (h : p.enqueued localAsn path ≠ []) : p.letsThrough path := by
  by_contra hthrough
  exact h (enqueued_of_not_letsThrough (by simpa using hthrough))

theorem session_of_letsThrough (h : p.letsThrough path) :
    p.bgpState = .established ∧ p.neighbor.isMpbgpCapValid path.nlri.routeFamily := by
  simp only [letsThrough, Bool.and_eq_true, inEstablished, decide_eq_true_eq, Neighbor.accepts] at h
  exact ⟨h.1.1, h.1.2.1⟩

theorem not_shares_of_source (h : path.source = some p.neighbor.peer) :
    p.neighbor.shares localAsn path = false := by
  simp [Neighbor.shares, h]

/-- A peer that is not a client gets what the rules allow. -/
theorem enqueued_eq_nil_of_not_shares (hclient : p.neighbor.isRouteServerClient = false)
    (h : p.neighbor.shares localAsn path = false) : p.enqueued localAsn path = [] := by
  cases hthrough : p.letsThrough path with
  | false => exact enqueued_of_not_letsThrough hthrough
  | true => simp [enqueued_of_letsThrough hthrough, hclient, h]

theorem keepsPolicy_of_not_client (hclient : p.neighbor.isRouteServerClient = false) :
    KeepsPolicy localAsn p path := by
  refine ⟨?_, fun h => session_of_letsThrough (letsThrough_of_enqueued h), fun hsource => ?_,
    fun _ source hsource hinternal hpeer => ?_, fun _ hsource hcomm => ?_,
    fun _ hsource hcomm hexternal => ?_⟩
  · cases hthrough : p.letsThrough path with
    | false => simp [enqueued_of_not_letsThrough hthrough]
    | true =>
      rw [enqueued_of_letsThrough hthrough, hclient, if_neg (by decide), List.nil_append]
      split <;> simp
  · exact enqueued_eq_nil_of_not_shares hclient (not_shares_of_source hsource)
  · apply enqueued_eq_nil_of_not_shares hclient
    simp [Neighbor.shares, Option.mem_def.1 hsource, hinternal, hpeer]
  · apply enqueued_eq_nil_of_not_shares hclient
    obtain ⟨source, hsource⟩ := Option.ne_none_iff_exists'.1 hsource
    simp [Neighbor.shares, hsource, hcomm]
  · apply enqueued_eq_nil_of_not_shares hclient
    obtain ⟨source, hsource⟩ := Option.ne_none_iff_exists'.1 hsource
    have hcomm : (path.hasCommAttr noExportSubconfed || path.hasCommAttr Bgp.noExport) = true := by
      simpa [or_comm] using hcomm
    simp [Neighbor.shares, hsource, hcomm, hexternal]

/-- The rules are kept unless the path reaches the branch for route-server clients and either comes
from the client itself or passes the rules behind the branch as well. -/
theorem keepsPolicy_iff (localAsn : Nat) (p : SessionPeer) (path : Path) :
    KeepsPolicy localAsn p path ↔
      p.neighbor.isRouteServerClient = false ∨ p.letsThrough path = false ∨
        path.source ≠ some p.neighbor.peer ∧ p.neighbor.shares localAsn path = false := by
  constructor
  · intro h
    cases hclient : p.neighbor.isRouteServerClient with
    | false => exact .inl rfl
    | true =>
      cases hthrough : p.letsThrough path with
      | false => exact .inr (.inl rfl)
      | true =>
        have hroutes := @enqueued_of_letsThrough localAsn p path hthrough
        rw [hclient, if_pos rfl] at hroutes
        refine .inr (.inr ⟨fun hsource => ?_, ?_⟩)
        · have hnone := h.not_to_source hsource
          simp [hroutes] at hnone
        · have hone := h.length_le
          cases hshares : p.neighbor.shares localAsn path with
          | false => rfl
          | true => simp [hroutes, hshares] at hone
  · rintro (hclient | hthrough | ⟨hsource, hshares⟩)
    · exact keepsPolicy_of_not_client hclient
    · have hnone := @enqueued_of_not_letsThrough localAsn p path hthrough
      constructor <;> simp [hnone]
    · cases hclient : p.neighbor.isRouteServerClient with
      | false => exact keepsPolicy_of_not_client hclient
      | true =>
        refine ⟨?_, fun h => session_of_letsThrough (letsThrough_of_enqueued h),
          fun h => absurd h hsource, by simp [hclient], by simp [hclient], by simp [hclient]⟩
        cases hthrough : p.letsThrough path with
        | false => simp [enqueued_of_not_letsThrough hthrough]
        | true => simp [enqueued_of_letsThrough hthrough, hclient, hshares]

/-- An established route-server client. -/
def routeServerClient : SessionPeer where
  bgpState := .established
  neighbor :=
    { peer := ⟨1, 65001, 1, 2⟩, families := [rfIPv4UC], isRouteServerClient := true }

/-- A path of the speaker itself. -/
def localPath : Path where
  id := 0
  source := none
  nlri := .ip 24 [10, 0, 0, 0]
  sourceVersionNum := 1

/-- The client is told of a local path twice, and of its own path once. -/
theorem not_keepsPolicy_routeServerClient :
    routeServerClient.communicatePath 65000 localPath = .ok [localPath, localPath] ∧
      ¬KeepsPolicy 65000 routeServerClient localPath ∧
      routeServerClient.communicatePath 65000
          { localPath with source := some routeServerClient.neighbor.peer } =
        .ok [{ localPath with source := some routeServerClient.neighbor.peer }] := by
  refine ⟨by decide, fun h => ?_, by decide⟩
  have hlen := h.length_le
  revert hlen
  decide

end SessionPeer

end BebaCtrl.Bgp
