import BebaCtrl.Bgp.Destination

/-!
# Telling the peers of the best path

When the best path of a destination changes, announcements and withdrawals are put on the outgoing
queues of the peers, and each peer sends the messages of its queue in order. A route counts as sent
to a peer only when the message really is sent, and which peers get a withdrawal depends on that.

The messages are those for one prefix, since messages for other prefixes do not change their order.
All peers are established and have no out-filters.
-/

namespace BebaCtrl.Bgp

open List Function PyM Destination

namespace Path

def getRts (path : Path) : List RouteTarget :=
  match path.pathAttrMap.extendedCommunities with
  | none => []
  | some communities => rtList communities

def hasRtsIn (path : Path) (interestedRts : List RouteTarget) : Bool :=
  (path.getRts ++ [defaultRt]).any fun rt => interestedRts.contains rt

def hasCommAttr (path : Path) (attr : Nat) : Bool :=
  match path.pathAttrMap.communities with
  | none => false
  | some communities => communities.contains attr

/-- `clone_path_and_update_med_for_target_neighbor` -/
def cloneAndUpdateMed (path : Path) (med : Nat) : Path :=
  { path with pathAttrMap := { path.pathAttrMap with multiExitDisc := some med } }

end Path

/-- An established peer with its configuration. -/
structure Neighbor where
  peer : Peer
  /-- the route families that both sides advertised -/
  families : List RouteFamily
  /-- the entry of `_peer_to_rtfilter_map`, which may be `None` -/
  rtFilter : Option (Option (List RouteTarget)) := none
  isRouteServerClient : Bool := false
  /-- 0 if it is not configured -/
  multiExitDisc : Nat := 0
  rtcAs : Nat := 0
  deriving DecidableEq, Repr

structure AdvertiseConfig where
  localAsn : Nat
  neighbors : List Neighbor
  nodup : (neighbors.map Neighbor.peer).Nodup

namespace Neighbor

def isMpbgpCapValid (q : Neighbor) (routeFamily : Option RouteFamily) : Bool :=
  match routeFamily with
  | some rf => q.families.contains rf
  | none => false

/-- The session is available for the path and the filter of the peer lets it through. -/
def accepts (q : Neighbor) (path : Path) : Bool :=
  let pathRf := path.nlri.routeFamily
  -- no filter and an empty filter let everything through
  let rtfilter := (q.rtFilter.getD none).getD []
  q.isMpbgpCapValid pathRf &&
    !(pathRf != some rfRTCUC && q.isMpbgpCapValid (some rfRTCUC) &&
      rtfilter != [] && !path.hasRtsIn rtfilter)

/-- A local path is shared with all peers, a path of a peer with all but its source and, if it came
from an internal peer, other internal peers, unless its communities forbid that. -/
def shares (localAsn : Nat) (q : Neighbor) (path : Path) : Bool :=
  match path.source with
  | none => true
  | some source =>
    (q.peer != source || q.peer.remoteAs != source.remoteAs) &&
      !(q.peer.remoteAs == localAsn && q.peer.remoteAs == source.remoteAs) &&
      !path.hasCommAttr noAdvertise &&
      !((path.hasCommAttr noExportSubconfed || path.hasCommAttr noExport) &&
        q.peer.remoteAs != localAsn)

/-- The routes that `communicate_path` puts on the queue of the peer. -/
def communicatePath (localAsn : Nat) (q : Neighbor) (path : Path) : PyResult (List Path) := do
  if !q.accepts path then return []
  let hasLoop ← match path.pathAttrMap.asPath with
    | none => .ok false
    | some asPath => hasMatchingLeftmost asPath q.peer.remoteAs
  if hasLoop then return []
  let toRouteServerClient := if q.isRouteServerClient then [path] else []
  let path :=
    if q.multiExitDisc ≠ 0 ∧ path.pathAttrMap.multiExitDisc = none then
      path.cloneAndUpdateMed q.multiExitDisc
    else path
  return toRouteServerClient ++ if q.shares localAsn path then [path] else []

end Neighbor

/-- The outgoing messages for the prefix, and whether its destination is in the table. -/
structure Outgoing where
  queue : Peer → List Path := fun _ => []
  sent : Peer → List Path := fun _ => []
  inTable : Bool := false

namespace Advertise

variable (cfg : AdvertiseConfig)

def enqueOutgoingMsgs (peer : Peer) (routes : List Path) (out : Outgoing) : Outgoing :=
  { out with queue := Function.update out.queue peer (out.queue peer ++ routes) }

/-- The peers with an interest in the path, in the order in which a set is gone through. -/
def collectPeersOfInterest (newBestPath : Path) : List Neighbor :=
  match newBestPath.getRts with
  | [] =>
    -- `filter_by_origin_as`
    match newBestPath.source, newBestPath.nlri with
    | none, .rtc originAs _ => cfg.neighbors.filter fun q => q.rtcAs = originAs
    | _, _ => cfg.neighbors
  | pathRts =>
    cfg.neighbors.filter fun q =>
      !q.isMpbgpCapValid (some rfRTCUC) ||
        match q.rtFilter with
        | none => false
        | some none => true
        | some (some rtFilter) => (pathRts ++ [defaultRt]).any fun rt => rtFilter.contains rt

def tellPeer (newBestPath : Path) (q : Neighbor) : PyM Outgoing Unit := do
  let routes ← q.communicatePath cfg.localAsn newBestPath
  modify (enqueOutgoingMsgs q.peer routes)

def commNewBestToBgpPeers (newBestPath : Path) : PyM Outgoing Unit :=
  if newBestPath.hasCommAttr noAdvertise then pure ()
  else (collectPeersOfInterest cfg newBestPath).forM (tellPeer cfg newBestPath)

def peerManager : PeerManager Outgoing where
  commNewBestToBgpPeers := commNewBestToBgpPeers cfg
  enqueOutgoingMsg peer path := enqueOutgoingMsgs peer [path]
  deleteDest := fun out =>
    if out.inTable then (.ok (), { out with inTable := false }) else (.error .keyError, out)

/-- `add_sent_route` -/
def addSentRoute (sentRoute : SentRoute) (dest : Destination) : Destination :=
  { dest with
    sentRoutes := dest.sentRoutes.filter (fun r => r.sentPeer ≠ sentRoute.sentPeer) ++ [sentRoute] }

inductive Event where
  /-- A path is announced or withdrawn. -/
  | learn (path : Path)
  | process
  | send (peer : Peer)
  deriving DecidableEq, Repr

def learnPath (path : Path) (s : Destination × Outgoing) : Destination × Outgoing :=
  (if path.isWithdraw then s.1.addWithdraw path else s.1.addNewPath path,
    { s.2 with inTable := true })

/-- A destination that is not in the table is a new one at the next look-up. -/
def process (s : Destination × Outgoing) : Destination × Outgoing :=
  if s.2.inTable then
    let s' := (Destination.process (NonVrf.pathProcessing (peerManager cfg)) cfg.localAsn s).2
    if s'.2.inTable then s' else ({}, s'.2)
  else s

/-- `_send_outgoing_route` for the first message of the queue. -/
def sendOutgoingRoute (peer : Peer) (s : Destination × Outgoing) : Destination × Outgoing :=
  match s.2.queue peer with
  | [] => s
  | path :: queue =>
    let out := { s.2 with
      queue := Function.update s.2.queue peer queue
      sent := Function.update s.2.sent peer (s.2.sent peer ++ [path]) }
    if path.isWithdraw then (s.1, out)
    else (addSentRoute ⟨path, peer⟩ s.1, { out with inTable := true })

def step (s : Destination × Outgoing) : Event → Destination × Outgoing
  | .learn path => learnPath path s
  | .process => process cfg s
  | .send peer => sendOutgoingRoute peer s

def run (events : List Event) : Destination × Outgoing := events.foldl (step cfg) ({}, {})

/-! ## What the peers should have been told -/

/-- The messages with which the peer is told of a path; none if that raises. -/
def messages (q : Neighbor) (path : Path) : List Path :=
  match q.communicatePath cfg.localAsn path with
  | .ok routes => routes
  | .error _ => []

/-- The last message for the prefix announces the best path if the peer is to be told of it, and is
a withdrawal otherwise. -/
def Right (best : Option Path) (last : Option Path) (q : Neighbor) : Prop :=
  match best with
  | some path =>
    if messages cfg q path ≠ [] then ∃ msg ∈ last, msg ∈ messages cfg q path
    else ∀ msg ∈ last, msg.isWithdraw
  | none => ∀ msg ∈ last, msg.isWithdraw

/-- The last message that was sent, or will have been when the queue is empty. -/
def lastMsg (out : Outgoing) (peer : Peer) : Option Path :=
  (out.sent peer ++ out.queue peer).getLast?

/-- The peers that are told of a new best path: those before the first one that raises. -/
def told (path : Path) : List Neighbor :=
  if path.hasCommAttr noAdvertise then []
  else (collectPeersOfInterest cfg path).takeWhile fun q =>
    (q.communicatePath cfg.localAsn path).isOk

/-- Telling the peers of a path raises no exception. -/
def Completes (path : Path) : Prop :=
  path.hasCommAttr noAdvertise = false →
    ∀ q ∈ collectPeersOfInterest cfg path, (q.communicatePath cfg.localAsn path).isOk

/-- The last of the messages with which the peer is told of the best path. -/
def announcement (q : Neighbor) (best : Option Path) : Option Path :=
  best.bind fun path => (messages cfg q path).getLast?

/-- The old best path is still known. -/
def OldKnown (dest : Destination) : Prop :=
  ∃ old ∈ dest.bestPath, old ∈ dest.merged.knownPathList

/-- The route counts as sent to the peer. -/
def Recorded (dest : Destination) (q : Neighbor) : Prop :=
  ∃ route ∈ dest.sentRoutes, route.sentPeer = q.peer

/-- Processing ends what was sent so far: no path is left, or another one is the best now. If
telling the peers of that one raises, the old one has to be gone. -/
def Supersedes (s : Destination × Outgoing) : Prop :=
  s.2.inTable ∧
    match bestKnown cfg.localAsn s.1.merged.knownPathList with
    | .error _ => False
    | .ok (none, _) => True
    | .ok (some path, _) => s.1.bestPath ≠ some path ∧ s.1.bestPath ≠ none ∧
        (OldKnown s.1 → Completes cfg path)

/-- The peer has sent an announcement, and no processing has superseded it. -/
def HasSent (q : Neighbor) : List Event → Prop :=
  History.SinceAt
    (fun before event => event = .send q.peer ∧
      ∃ msg ∈ ((run cfg before).2.queue q.peer).head?, msg.isWithdraw = false)
    fun before event => event = .process → ¬Supersedes cfg (run cfg before)

/-- The peers that have sent an announcement get a withdrawal: no path is left, or the old best path
is still known after the peers were told of the new one. -/
def Withdraws (dest : Destination) : Option Path → Prop
  | none => True
  | some path => Completes cfg path ∧ OldKnown dest

/-- The peer is told of the new best path. -/
def IsTold (q : Neighbor) (best : Option Path) : Prop :=
  (∃ path ∈ best, q ∈ told cfg path) ∧ announcement cfg q best ≠ none

/-- Where a withdrawal comes last, the peer is not to be told of the new best path. Any other peer
is told of it, or has been told the same before. -/
def Safe (s : Destination × Outgoing) (Sent : Neighbor → Prop) : Prop :=
  match bestKnown cfg.localAsn s.1.merged.knownPathList with
  | .error _ => True
  | .ok (best, _) => s.1.bestPath = best ∨ ∀ q ∈ cfg.neighbors,
    (Withdraws cfg s.1 best ∧ Sent q → announcement cfg q best = none) ∧
    (¬(Withdraws cfg s.1 best ∧ Sent q) →
      IsTold cfg q best ∨ announcement cfg q s.1.bestPath = announcement cfg q best)

/-! ## What is put on the queues -/

variable {cfg} {out out' : Outgoing} {peer : Peer}

theorem lastMsg_append {msgs : List Path} (hsent : out'.sent = out.sent)
    (hqueue : out'.queue peer = out.queue peer ++ msgs) :
    lastMsg out' peer = msgs.getLast?.or (lastMsg out peer) := by
  unfold lastMsg
  rw [hsent, hqueue, ← append_assoc, getLast?_append]

/-- The loop over the peers stops at the first that raises. -/
theorem forM_tellPeer (path : Path) (qs : List Neighbor) (out : Outgoing) :
    let told := qs.takeWhile fun q => (q.communicatePath cfg.localAsn path).isOk
    let out' := (qs.forM (tellPeer cfg path) out).2
    out'.sent = out.sent ∧ out'.inTable = out.inTable ∧
      (∀ peer, out'.queue peer = out.queue peer ++
        (told.filter fun q => q.peer = peer).flatMap fun q => messages cfg q path) ∧
      ((∀ q ∈ qs, (q.communicatePath cfg.localAsn path).isOk) ↔
        (qs.forM (tellPeer cfg path) out).1 = .ok ()) := by
  induction qs generalizing out with
  | nil => simp [pure_apply]
  | cons q qs ih =>
    cases hq : q.communicatePath cfg.localAsn path with
    | error e =>
      have hraise : (q :: qs).forM (tellPeer cfg path) out = (.error e, out) := by
        have htell : tellPeer cfg path q out = (.error e, out) := by
          rw [tellPeer, bind_apply, lift_apply, hq]
        exact bind_of_error htell _
      simp [hraise, hq, Except.isOk, Except.toBool]
    | ok routes =>
      have hmsgs : messages cfg q path = routes := by rw [messages, hq]
      have htell : (q :: qs).forM (tellPeer cfg path) out =
          qs.forM (tellPeer cfg path) (enqueOutgoingMsgs q.peer routes out) := by
        refine bind_of_ok (a := ()) ?_ _
        rw [tellPeer, bind_apply, lift_apply, hq]
        rfl
      obtain ⟨hsent, htable, hqueue, hok⟩ := ih (enqueOutgoingMsgs q.peer routes out)
      have hisOk : (q.communicatePath cfg.localAsn path).isOk = true := by rw [hq]; rfl
      rw [htell]
      refine ⟨hsent, htable, ?_, ?_⟩
      · intro peer
        have htake : ((q :: qs).takeWhile fun q => (q.communicatePath cfg.localAsn path).isOk) =
            q :: qs.takeWhile fun q => (q.communicatePath cfg.localAsn path).isOk :=
          takeWhile_cons_of_pos hisOk
        rw [hqueue, htake]
        by_cases hpeer : q.peer = peer
        · subst hpeer
          simp [enqueOutgoingMsgs, hmsgs]
        · simp [enqueOutgoingMsgs, hpeer, update_of_ne (Ne.symm hpeer)]
      · rw [← hok]
        simp [hisOk]

theorem collectPeersOfInterest_sublist (path : Path) :
    (collectPeersOfInterest cfg path).Sublist cfg.neighbors := by
  unfold collectPeersOfInterest
  split
  · split
    · exact filter_sublist
    · exact List.Sublist.refl _
  · exact filter_sublist

theorem told_sublist (path : Path) : (told cfg path).Sublist cfg.neighbors := by
  unfold told
  split
  · exact nil_sublist _
  · exact (takeWhile_sublist _).trans (collectPeersOfInterest_sublist path)

variable {q : Neighbor}

/-- Among the neighbors a peer is there once. -/
theorem filter_peer_of_sublist {qs : List Neighbor} (h : qs.Sublist cfg.neighbors)
    (hq : q ∈ cfg.neighbors) :
    (qs.filter fun q' => q'.peer = q.peer) = if q ∈ qs then [q] else [] := by
  have hinj : ∀ q' ∈ qs, (q'.peer = q.peer ↔ q' = q) := fun q' hq' =>
    ⟨fun heq => inj_on_of_nodup_map cfg.nodup (h.subset hq') hq heq, fun heq => heq ▸ rfl⟩
  have hnodup : qs.Nodup := (List.Nodup.of_map _ cfg.nodup).sublist h
  rw [filter_congr fun q' hq' => decide_eq_decide.2 (hinj q' hq'), List.filter_eq, hnodup.count]
  split <;> rfl

/-- Telling the peers of a path gives their messages to those that are told. -/
theorem commNewBestToBgpPeers_spec (path : Path) (out : Outgoing) :
    let out' := (commNewBestToBgpPeers cfg path out).2
    out'.sent = out.sent ∧ out'.inTable = out.inTable ∧
      (∀ q ∈ cfg.neighbors, out'.queue q.peer = out.queue q.peer ++
        if q ∈ told cfg path then messages cfg q path else []) ∧
      (Completes cfg path ↔ (commNewBestToBgpPeers cfg path out).1 = .ok ()) := by
  unfold commNewBestToBgpPeers
  by_cases hadv : path.hasCommAttr noAdvertise
  · simp [hadv, pure_apply, told, Completes]
  · obtain ⟨hsent, htable, hqueue, hok⟩ := @forM_tellPeer cfg path
      (collectPeersOfInterest cfg path) out
    rw [if_neg hadv]
    refine ⟨hsent, htable, ?_, ?_⟩
    · intro q hq
      have htold : told cfg path = (collectPeersOfInterest cfg path).takeWhile fun q =>
          (q.communicatePath cfg.localAsn path).isOk := by simp [told, hadv]
      rw [hqueue, ← htold, filter_peer_of_sublist (told_sublist path) hq]
      split <;> simp
    · rw [← hok]
      simp [Completes, hadv]

/-- The withdrawals of the routes that were sent to a peer. -/
def withdrawals (routes : List SentRoute) (peer : Peer) : List Path :=
  (routes.filter fun route => route.sentPeer = peer).map fun route => route.path.clone true

theorem foldl_withdrawFrom_spec (routes : List SentRoute) (out : Outgoing) :
    let out' := routes.foldl (NonVrf.withdrawFrom (peerManager cfg)) out
    out'.sent = out.sent ∧ out'.inTable = out.inTable ∧
      ∀ peer, out'.queue peer = out.queue peer ++ withdrawals routes peer := by
  induction routes generalizing out with
  | nil => simp [withdrawals]
  | cons route routes ih =>
    obtain ⟨hsent, htable, hqueue⟩ := ih (NonVrf.withdrawFrom (peerManager cfg) out route)
    refine ⟨hsent, htable, ?_⟩
    intro peer
    rw [foldl_cons, hqueue]
    by_cases hpeer : route.sentPeer = peer
    · subst hpeer
      simp [NonVrf.withdrawFrom, peerManager, enqueOutgoingMsgs, withdrawals]
    · simp [NonVrf.withdrawFrom, peerManager, enqueOutgoingMsgs, withdrawals, hpeer,
        update_of_ne (Ne.symm hpeer)]

/-! ## Processing -/

/-- `_process`, without the removal from the table. -/
def best (cfg : AdvertiseConfig) (s : Destination × Outgoing) : Destination × Outgoing :=
  (processBest (NonVrf.pathProcessing (peerManager cfg)) cfg.localAsn s).2

variable {s : Destination × Outgoing}

theorem best_inTable (h : s.2.inTable) : (best cfg s).2.inTable := by
  refine processBest_keeps (T := fun out => out.inTable) (peerManager cfg)
    (fun _ _ _ h => h) (fun path out hout => ?_) cfg.localAsn s.1 h
  exact (@commNewBestToBgpPeers_spec cfg path out).2.1.trans hout

/-- No other best path is found. -/
def Settled (cfg : AdvertiseConfig) (dest : Destination) : Prop :=
  ∀ new reason, bestKnown cfg.localAsn dest.merged.knownPathList = .ok (new, reason) →
    dest.bestPath = new

theorem best_settled (hsettled : Settled cfg s.1) :
    (best cfg s).1.bestPath = s.1.bestPath ∧ (best cfg s).1.sentRoutes = s.1.sentRoutes ∧
      (best cfg s).2 = s.2 := by
  obtain ⟨dest, out⟩ := s
  rw [best, processBest_eq]
  cases hk : bestKnown cfg.localAsn dest.merged.knownPathList with
  | error e => exact ⟨merged_bestPath dest, merged_sentRoutes dest, rfl⟩
  | ok r =>
    have hsame : dest.bestPath = r.1 := hsettled r.1 r.2 hk
    dsimp only
    rw [if_pos hsame]
    exact ⟨merged_bestPath dest, merged_sentRoutes dest, rfl⟩

/-- A destination with paths stays in the table. -/
theorem process_eq_best (h : s.2.inTable) (hne : s.1.merged.knownPathList ≠ []) :
    process cfg s = best cfg s := by
  have hlists := (triple_processBest (NonVrf.pathProcessing (peerManager cfg)) cfg.localAsn
    s.1).final (s := s) rfl
  have htable := @best_inTable cfg s h
  have hbest : (Destination.process (NonVrf.pathProcessing (peerManager cfg)) cfg.localAsn s).2 =
      best cfg s := by
    have hknown : (best cfg s).1.knownPathList ≠ [] := by
      have hk : (best cfg s).1.knownPathList = s.1.merged.knownPathList := congrArg (·.1) hlists
      rwa [hk]
    unfold best at hknown ⊢
    rw [process_apply]
    rcases hr : processBest (NonVrf.pathProcessing (peerManager cfg)) cfg.localAsn s
      with ⟨_ | _, s'⟩
    · rfl
    · rw [hr] at hknown
      exact congrArg _ (if_neg fun hempty => hknown hempty.1)
  rw [process, if_pos h]
  simp only [hbest, htable, if_true]

theorem deleteDest_inTable (h : out.inTable) :
    (peerManager cfg).deleteDest out = (.ok (), { out with inTable := false }) :=
  if_pos h

/-- Without a path left, the peers on record get a withdrawal if there was a best path, and the
destination leaves the table. -/
theorem process_empty (h : s.2.inTable) (hempty : s.1.merged.knownPathList = []) :
    (process cfg s).1 = {} ∧ (process cfg s).2.sent = s.2.sent ∧
      ∀ peer, (process cfg s).2.queue peer = s.2.queue peer ++
        if s.1.bestPath = none then [] else withdrawals s.1.sentRoutes peer := by
  obtain ⟨dest, out⟩ := s
  have hknown : bestKnown cfg.localAsn dest.merged.knownPathList = .ok (none, .unknown) := by
    rw [hempty]
    rfl
  obtain ⟨hsent, htable, hqueue⟩ := @foldl_withdrawFrom_spec cfg dest.sentRoutes out
  rw [process, if_pos h, process_apply, processBest_eq]
  simp only [hknown, NonVrf.pathProcessing, NonVrf.bestPathLost_eq, merged_sentRoutes]
  by_cases hnone : dest.bestPath = none
  · simp [hnone, hempty, merged_bestPath, onSnd, deleteDest_inTable h]
  · simp [hnone, hempty, onSnd, deleteDest_inTable (htable.trans h), hsent, hqueue]

variable {path msg : Path} {reason : BestPathReason}

open Classical in
/-- The peers that are told of a new best path get their messages, and then those on record get a
withdrawal if the old one is still known. -/
theorem best_new
    (hk : bestKnown cfg.localAsn s.1.merged.knownPathList = .ok (some path, reason))
    (hne : s.1.bestPath ≠ some path) :
    (best cfg s).1.bestPath = some path ∧
      (best cfg s).1.sentRoutes =
        (if s.1.bestPath ≠ none ∧ (OldKnown s.1 → Completes cfg path) then []
        else s.1.sentRoutes) ∧
      (best cfg s).2.sent = s.2.sent ∧
      ∀ q ∈ cfg.neighbors, (best cfg s).2.queue q.peer = s.2.queue q.peer ++
        ((if q ∈ told cfg path then messages cfg q path else []) ++
          if Withdraws cfg s.1 path then withdrawals s.1.sentRoutes q.peer else []) := by
  obtain ⟨dest, out⟩ := s
  obtain ⟨hsent, -, hqueue, hcompletes⟩ := @commNewBestToBgpPeers_spec cfg path out
  unfold best
  simp only [processBest_eq, hk, hne, if_false, NonVrf.pathProcessing, NonVrf.newBestPath_eq,
    NonVrf.keptRoutes, merged_bestPath, merged_sentRoutes]
  rw [show (peerManager cfg).commNewBestToBgpPeers = commNewBestToBgpPeers cfg from rfl]
  rcases hc : commNewBestToBgpPeers cfg path out with ⟨e | u, out₁⟩
  · rw [hc] at hsent hqueue hcompletes
    have hnot : ¬Completes cfg path := fun hall => by simpa using hcompletes.1 hall
    replace hqueue : ∀ q ∈ cfg.neighbors, out₁.queue q.peer = _ := hqueue
    refine ⟨rfl, ?_, hsent, ?_⟩
    · cases hb : dest.bestPath <;> simp [hnot, OldKnown, hb]
    · intro q hq
      simp [Withdraws, hnot, hqueue q hq]
  · rw [hc] at hsent hqueue hcompletes
    have hall : Completes cfg path := hcompletes.2 rfl
    replace hqueue : ∀ q ∈ cfg.neighbors, out₁.queue q.peer = _ := hqueue
    obtain ⟨hsent₂, -, hqueue₂⟩ := @foldl_withdrawFrom_spec cfg dest.sentRoutes out₁
    cases hb : dest.bestPath with
    | none => simpa [Withdraws, OldKnown, hb] using And.intro hsent hqueue
    | some old =>
      by_cases hold : old ∈ dest.merged.knownPathList
      · refine ⟨by simp, by simp [hall], by simpa [hold] using hsent₂.trans hsent, ?_⟩
        intro q hq
        simp [Withdraws, OldKnown, hb, hold, hall, hqueue₂, hqueue q hq]
      · simpa [Withdraws, OldKnown, hb, hold] using And.intro hsent hqueue

/-! ## The last messages -/

/-- The path as it goes to a peer that is no route server client. -/
def withMed (q : Neighbor) (path : Path) : Path :=
  if q.multiExitDisc ≠ 0 ∧ path.pathAttrMap.multiExitDisc = none then
    path.cloneAndUpdateMed q.multiExitDisc
  else path

theorem messages_cases (cfg : AdvertiseConfig) (q : Neighbor) (path : Path) :
    messages cfg q path = [] ∨
      messages cfg q path = (if q.isRouteServerClient then [path] else []) ∨
      messages cfg q path = (if q.isRouteServerClient then [path] else []) ++ [withMed q path] := by
  unfold messages Neighbor.communicatePath withMed
  simp only [bind, Except.bind, pure, Except.pure]
  grind

theorem withMed_isWithdraw (q : Neighbor) (path : Path) :
    (withMed q path).isWithdraw = path.isWithdraw := by
  unfold withMed
  split <;> rfl

theorem eq_of_mem_messages (h : msg ∈ messages cfg q path) : msg = path ∨ msg = withMed q path := by
  grind [messages_cases cfg q path]

theorem isWithdraw_of_mem_messages (h : msg ∈ messages cfg q path) :
    msg.isWithdraw = path.isWithdraw := by
  rcases eq_of_mem_messages h with rfl | rfl
  · rfl
  · exact withMed_isWithdraw q path

/-- A message that is the last for one path and one of those for another is the last for that one:
only the one with the MED of the peer can be the same for both. -/
theorem getLast_messages_of_mem {old : Path} (hne : old ≠ path)
    (hlast : (messages cfg q old).getLast? = some msg) (hmem : msg ∈ messages cfg q path) :
    (messages cfg q path).getLast? = some msg := by
  have hmed : msg = path → path = withMed q path := by
    intro hpath
    rcases eq_of_mem_messages (mem_of_getLast? hlast) with hold | hold
    · exact absurd (hold.symm.trans hpath) hne
    · rw [← hpath, hold]
      unfold withMed Path.cloneAndUpdateMed
      grind
  rcases messages_cases cfg q path with hall | hall | hall
  · simp [hall] at hmem
  · rw [hall] at hmem ⊢
    split_ifs at hmem ⊢
    · rw [mem_singleton.1 hmem, getLast?_singleton]
    · cases hmem
  · rw [hall, getLast?_concat]
    rcases eq_of_mem_messages hmem with hpath | hwith
    · rw [hpath, ← hmed hpath]
    · rw [hwith]

variable {best last : Option Path}

variable (cfg) in
/-- The last message is the announcement of the best path, if there is one for the peer. -/
def Stands (best last : Option Path) (q : Neighbor) : Prop :=
  match announcement cfg q best with
  | some msg => last = some msg
  | none => ∀ msg ∈ last, msg.isWithdraw

theorem Stands.right (h : Stands cfg best last q) : Right cfg best last q := by
  cases best with
  | none => exact h
  | some path =>
    by_cases hne : messages cfg q path = []
    · simpa [Stands, Right, announcement, hne] using h
    · have hsome : announcement cfg q path = some ((messages cfg q path).getLast hne) :=
        getLast?_eq_some_getLast hne
      rw [Stands, hsome] at h
      rw [Right, if_pos hne]
      exact ⟨_, h, getLast_mem hne⟩

theorem Stands.of_none (hnone : announcement cfg q best = none)
    (hlast : ∀ msg ∈ last, msg.isWithdraw) : Stands cfg best last q := by
  rw [Stands, hnone]
  exact hlast

section

variable (hbest : ∀ path ∈ best, path.isWithdraw = false)
include hbest

theorem isWithdraw_of_announcement (h : announcement cfg q best = some msg) :
    msg.isWithdraw = false := by
  obtain ⟨path, hpath, hlast⟩ := Option.bind_eq_some_iff.1 h
  rw [isWithdraw_of_mem_messages (mem_of_getLast? hlast)]
  exact hbest path hpath

/-- Where withdrawals are right, the peer is not to be told of the best path. -/
theorem announcement_eq_none (hlast : ∀ msg ∈ last, msg.isWithdraw)
    (hright : Right cfg best last q) : announcement cfg q best = none := by
  cases best with
  | none => rfl
  | some path =>
    by_cases hne : messages cfg q path = []
    · simp [announcement, hne]
    · rw [Right, if_pos hne] at hright
      obtain ⟨msg, hmsg, hmem⟩ := hright
      have hw := hlast msg hmsg
      rw [isWithdraw_of_mem_messages hmem, hbest path rfl] at hw
      cases hw

/-- A last message that is right before and after means the same announcement. -/
theorem announcement_eq_of_right {old : Option Path} (hold : ∀ path ∈ old, path.isWithdraw = false)
    (hne : old ≠ best) (hstands : Stands cfg old last q) (hright : Right cfg best last q) :
    announcement cfg q old = announcement cfg q best := by
  cases ha : announcement cfg q old with
  | none =>
    rw [Stands, ha] at hstands
    exact (announcement_eq_none hbest hstands hright).symm
  | some msg =>
    have hmsg := isWithdraw_of_announcement hold ha
    rw [Stands, ha] at hstands
    subst hstands
    obtain ⟨path₀, rfl, hlast⟩ := Option.bind_eq_some_iff.1 ha
    cases best with
    | none => exact absurd (hright msg rfl) (by simp [hmsg])
    | some path =>
      by_cases hnil : messages cfg q path = []
      · simp [Right, hnil, hmsg] at hright
      · simp only [Right, hnil, ne_eq, not_false_eq_true, if_true, Option.mem_some_iff,
          exists_eq_left'] at hright
        exact (getLast_messages_of_mem (fun heq => hne (congrArg some heq)) hlast hright).symm

end

variable {new : Option Path}

open Classical in
/-- How processing changes the last messages. -/
theorem process_change (h : s.2.inTable)
    (hk : bestKnown cfg.localAsn s.1.merged.knownPathList = .ok (new, reason))
    (hne : s.1.bestPath ≠ new) :
    (process cfg s).1.bestPath = new ∧ ∀ q ∈ cfg.neighbors, lastMsg (process cfg s).2 q.peer =
      (if Withdraws cfg s.1 new then withdrawals s.1.sentRoutes q.peer else []).getLast?.or
        ((if ∃ path ∈ new, q ∈ told cfg path then announcement cfg q new else none).or
          (lastMsg s.2 q.peer)) := by
  cases new with
  | none =>
    obtain ⟨hdest, hsent, hqueue⟩ := process_empty h (bestKnown_none hk)
    refine ⟨by rw [hdest], fun q _ => ?_⟩
    rw [lastMsg_append hsent (hqueue q.peer)]
    simp [Withdraws, hne]
  | some path =>
    obtain ⟨hbest, -, hsent, hqueue⟩ := best_new hk hne
    rw [process_eq_best h (ne_nil_of_mem (bestKnown_mem hk))]
    refine ⟨hbest, fun q hq => ?_⟩
    rw [lastMsg_append hsent (hqueue q hq), getLast?_append, Option.or_assoc]
    by_cases htold : q ∈ told cfg path <;> simp [htold, announcement]

theorem process_settled (h : s.2.inTable) (hsettled : Settled cfg s.1) :
    (process cfg s).1.bestPath = s.1.bestPath ∧
      ∀ peer, lastMsg (process cfg s).2 peer = lastMsg s.2 peer := by
  by_cases hempty : s.1.merged.knownPathList = []
  · have hnone : s.1.bestPath = none := hsettled none .unknown (by rw [hempty]; rfl)
    obtain ⟨hdest, hsent, hqueue⟩ := process_empty h hempty
    refine ⟨by rw [hdest, hnone], fun peer => ?_⟩
    rw [lastMsg_append hsent (hqueue peer)]
    simp [hnone]
  · obtain ⟨hbest, -, hout⟩ := best_settled hsettled
    rw [process_eq_best h hempty, hout]
    exact ⟨hbest, fun _ => rfl⟩

theorem getLast_withdrawals (dest : Destination) (q : Neighbor) :
    (Recorded dest q → ∃ msg, msg.isWithdraw = true ∧
      (withdrawals dest.sentRoutes q.peer).getLast? = some msg) ∧
    (¬Recorded dest q → withdrawals dest.sentRoutes q.peer = []) := by
  have hnil : withdrawals dest.sentRoutes q.peer ≠ [] ↔ Recorded dest q := by
    simp [withdrawals, Recorded, filter_eq_nil_iff]
  constructor
  · intro hrecorded
    have hne := hnil.2 hrecorded
    obtain ⟨route, -, hroute⟩ := mem_map.1 (getLast_mem hne)
    exact ⟨_, by rw [← hroute]; rfl, getLast?_eq_some_getLast hne⟩
  · intro hnot
    exact not_not.1 fun hne => hnot (hnil.1 hne)

/-- The last message to one peer when the best path changes. -/
theorem lastMsg_change_cases (h : s.2.inTable)
    (hk : bestKnown cfg.localAsn s.1.merged.knownPathList = .ok (new, reason))
    (hne : s.1.bestPath ≠ new) (hq : q ∈ cfg.neighbors) :
    (Withdraws cfg s.1 new ∧ Recorded s.1 q →
      ∃ msg, msg.isWithdraw = true ∧ lastMsg (process cfg s).2 q.peer = some msg) ∧
    (¬(Withdraws cfg s.1 new ∧ Recorded s.1 q) →
      (IsTold cfg q new → lastMsg (process cfg s).2 q.peer = announcement cfg q new) ∧
        (¬IsTold cfg q new → lastMsg (process cfg s).2 q.peer = lastMsg s.2 q.peer)) := by
  classical
  rw [(process_change h hk hne).2 q hq]
  obtain ⟨hrec, hnot⟩ := getLast_withdrawals s.1 q
  constructor
  · rintro ⟨hw, hr⟩
    obtain ⟨msg, hmsg, hlast⟩ := hrec hr
    exact ⟨msg, hmsg, by simp [hw, hlast]⟩
  · intro hw
    have hnone :
        (if Withdraws cfg s.1 new then withdrawals s.1.sentRoutes q.peer else []) = [] := by
      split_ifs with hwithdraws
      · exact hnot fun hr => hw ⟨hwithdraws, hr⟩
      · rfl
    rw [hnone, getLast?_nil, Option.none_or]
    split_ifs with htold
    · cases ha : announcement cfg q new with
      | none => exact ⟨fun ht => absurd ha ht.2, fun _ => rfl⟩
      | some msg => exact ⟨fun _ => rfl, fun ht => absurd ⟨htold, by simp [ha]⟩ ht⟩
    · exact ⟨fun ht => absurd ht.1 htold, fun _ => rfl⟩

/-- The known and new paths and the best one are announcements. -/
structure Announced (dest : Destination) : Prop where
  paths : ∀ path ∈ dest.knownPathList ++ dest.newPathList, path.isWithdraw = false
  bestPath : ∀ path ∈ dest.bestPath, path.isWithdraw = false

theorem Announced.found (h : Announced dest)
    (hk : bestKnown cfg.localAsn dest.merged.knownPathList = .ok (new, reason)) :
    ∀ path ∈ new, path.isWithdraw = false := by
  rintro path rfl
  exact h.paths path (mem_merged (bestKnown_mem hk))

theorem exists_of_not_settled (h : ¬Settled cfg dest) : ∃ new reason,
    bestKnown cfg.localAsn dest.merged.knownPathList = .ok (new, reason) ∧ dest.bestPath ≠ new := by
  simpa [Settled] using h

section

variable (h : s.2.inTable) (hannounced : Announced s.1)
  (hstands : ∀ q ∈ cfg.neighbors, Stands cfg s.1.bestPath (lastMsg s.2 q.peer) q)
include h hstands

theorem stands_process (hsafe : Safe cfg s (Recorded s.1)) : ∀ q ∈ cfg.neighbors,
    Stands cfg (process cfg s).1.bestPath (lastMsg (process cfg s).2 q.peer) q := by
  intro q hq
  by_cases hsettled : Settled cfg s.1
  · obtain ⟨hbest, hlast⟩ := process_settled h hsettled
    rw [hbest, hlast]
    exact hstands q hq
  · obtain ⟨new, reason, hk, hne⟩ := exists_of_not_settled hsettled
    simp only [Safe, hk, hne, false_or] at hsafe
    obtain ⟨hwithdrawn, hother⟩ := hsafe q hq
    obtain ⟨hrec, hnot⟩ := lastMsg_change_cases h hk hne hq
    rw [(process_change h hk hne).1]
    by_cases hw : Withdraws cfg s.1 new ∧ Recorded s.1 q
    · obtain ⟨msg, hmsg, hlast⟩ := hrec hw
      rw [hlast]
      exact .of_none (hwithdrawn hw) (by simp [hmsg])
    · obtain ⟨htold, hkept⟩ := hnot hw
      by_cases ht : IsTold cfg q new
      · rw [htold ht]
        obtain ⟨msg, hmsg⟩ := Option.ne_none_iff_exists'.1 ht.2
        simp [Stands, hmsg]
      · have hsame := (hother hw).resolve_left ht
        rw [hkept ht, Stands, ← hsame]
        exact hstands q hq

include hannounced in
theorem safe_of_right (hright : ∀ q ∈ cfg.neighbors,
    Right cfg (process cfg s).1.bestPath (lastMsg (process cfg s).2 q.peer) q) :
    Safe cfg s (Recorded s.1) := by
  unfold Safe
  rcases hk : bestKnown cfg.localAsn s.1.merged.knownPathList with e | ⟨new, reason⟩
  · trivial
  · by_cases hne : s.1.bestPath = new
    · exact .inl hne
    · refine .inr fun q hq => ?_
      obtain ⟨hrec, hnot⟩ := lastMsg_change_cases h hk hne hq
      have hq' := hright q hq
      rw [(process_change h hk hne).1] at hq'
      constructor
      · intro hw
        obtain ⟨msg, hmsg, hlast⟩ := hrec hw
        rw [hlast] at hq'
        exact announcement_eq_none (hannounced.found hk) (by simp [hmsg]) hq'
      · intro hw
        refine or_iff_not_imp_left.2 fun ht => ?_
        rw [(hnot hw).2 ht] at hq'
        exact announcement_eq_of_right (hannounced.found hk) hannounced.bestPath hne
          (hstands q hq) hq'

end

/-! ## Sending -/

/-- Sending takes the first message from the queue, if there is one. -/
theorem sendOutgoingRoute_eq (peer : Peer) (s : Destination × Outgoing) :
    ∃ sentRoutes inTable, sendOutgoingRoute peer s = ({ s.1 with sentRoutes },
      { queue := Function.update s.2.queue peer (s.2.queue peer).tail
        sent := Function.update s.2.sent peer (s.2.sent peer ++ (s.2.queue peer).head?.toList)
        inTable }) := by
  unfold sendOutgoingRoute
  cases hq : s.2.queue peer with
  | nil =>
    have hself := update_eq_self peer s.2.queue
    rw [hq] at hself
    exact ⟨s.1.sentRoutes, s.2.inTable, by simp [hself]⟩
  | cons path queue =>
    dsimp only
    split
    · exact ⟨_, _, rfl⟩
    · exact ⟨_, _, rfl⟩

theorem sendOutgoingRoute_dest (peer : Peer) (s : Destination × Outgoing) :
    ∃ sentRoutes, (sendOutgoingRoute peer s).1 = { s.1 with sentRoutes } := by
  obtain ⟨sentRoutes, inTable, h⟩ := sendOutgoingRoute_eq peer s
  exact ⟨sentRoutes, by rw [h]⟩

theorem sendOutgoingRoute_queue (peer peer' : Peer) (s : Destination × Outgoing) :
    (sendOutgoingRoute peer s).2.queue peer' =
      if peer' = peer then (s.2.queue peer).tail else s.2.queue peer' := by
  obtain ⟨sentRoutes, inTable, h⟩ := sendOutgoingRoute_eq peer s
  rw [h]
  exact update_apply ..

/-- Sending moves a message and leaves the last one as it is. -/
theorem sendOutgoingRoute_lastMsg (peer peer' : Peer) (s : Destination × Outgoing) :
    lastMsg (sendOutgoingRoute peer s).2 peer' = lastMsg s.2 peer' := by
  obtain ⟨sentRoutes, inTable, h⟩ := sendOutgoingRoute_eq peer s
  rw [h, lastMsg, lastMsg]
  by_cases hp : peer' = peer
  · subst hp
    cases hq : s.2.queue peer' <;> simp
  · simp [hp]

/-! ## The record of what was sent -/

variable (cfg) in
theorem recorded_process (s : Destination × Outgoing) (q : Neighbor) :
    Recorded (process cfg s).1 q ↔ ¬Supersedes cfg s ∧ Recorded s.1 q := by
  by_cases h : s.2.inTable
  · by_cases hempty : s.1.merged.knownPathList = []
    · have hsup : Supersedes cfg s := ⟨h, by rw [hempty]; trivial⟩
      rw [(process_empty h hempty).1]
      simp [hsup, Recorded]
    · rw [process_eq_best h hempty]
      rcases hk : bestKnown cfg.localAsn s.1.merged.knownPathList with e | ⟨_ | path, reason⟩
      · have hsettled : Settled cfg s.1 := fun new reason hnew => by simp [hk] at hnew
        simp [Supersedes, hk, Recorded, (best_settled hsettled).2.1]
      · exact absurd (bestKnown_none hk) hempty
      · by_cases hsame : s.1.bestPath = some path
        · have hsettled : Settled cfg s.1 := fun new reason hnew => by
            rw [hk] at hnew
            cases hnew
            exact hsame
          simp [Supersedes, hk, hsame, Recorded, (best_settled hsettled).2.1]
        · obtain ⟨-, hroutes, -⟩ := best_new hk hsame
          have hsup : Supersedes cfg s ↔
              s.1.bestPath ≠ none ∧ (OldKnown s.1 → Completes cfg path) := by
            simp [Supersedes, hk, h, hsame]
          rw [Recorded, hroutes, hsup]
          split_ifs with hc
          · exact iff_of_false (by simp) fun hand => hand.1 hc
          · exact (and_iff_right hc).symm
  · simp [process, h, Supersedes]

theorem recorded_sendOutgoingRoute (peer : Peer) (s : Destination × Outgoing) (q : Neighbor) :
    Recorded (sendOutgoingRoute peer s).1 q ↔
      (peer = q.peer ∧ ∃ msg ∈ (s.2.queue q.peer).head?, msg.isWithdraw = false) ∨
        Recorded s.1 q := by
  unfold sendOutgoingRoute
  by_cases hpeer : peer = q.peer
  · subst hpeer
    cases hq : s.2.queue q.peer with
    | nil => simp
    | cons msg queue =>
      cases hw : msg.isWithdraw with
      | true => simp [hw]
      | false => simp [hw, Recorded, addSentRoute]
  · cases hq : s.2.queue peer with
    | nil => simp [hpeer]
    | cons msg queue =>
      cases hw : msg.isWithdraw with
      | true => simp [hw, hpeer]
      | false =>
        have hroute : ∀ route : SentRoute, route.sentPeer = q.peer → route.sentPeer ≠ peer :=
          fun route h heq => hpeer (heq.symm.trans h)
        simp only [hw, Recorded, addSentRoute]
        grind

variable (cfg) in
theorem recorded_step (s : Destination × Outgoing) (event : Event) (q : Neighbor) :
    Recorded (step cfg s event).1 q ↔
      (event = .send q.peer ∧ ∃ msg ∈ (s.2.queue q.peer).head?, msg.isWithdraw = false) ∨
        (event = .process → ¬Supersedes cfg s) ∧ Recorded s.1 q := by
  cases event with
  | learn path =>
    have hroutes : (learnPath path s).1.sentRoutes = s.1.sentRoutes := by
      unfold learnPath
      cases path.isWithdraw <;> rfl
    simp [step, Recorded, hroutes]
  | process => simpa [step] using recorded_process cfg s q
  | send peer => simpa [step] using recorded_sendOutgoingRoute peer s q

variable (cfg)

theorem run_concat (events : List Event) (event : Event) :
    run cfg (events ++ [event]) = step cfg (run cfg events) event := by
  rw [run, foldl_append]
  rfl

theorem run_send (events : List Event) (peers : List Peer) :
    (run cfg (events ++ peers.map .send)).1.bestPath = (run cfg events).1.bestPath ∧
      (∀ peer, lastMsg (run cfg (events ++ peers.map .send)).2 peer =
        lastMsg (run cfg events).2 peer) ∧
      ∀ peer, (run cfg (events ++ peers.map .send)).2.queue peer =
        ((run cfg events).2.queue peer).drop (peers.count peer) := by
  induction peers generalizing events with
  | nil => simp
  | cons peer₀ peers ih =>
    obtain ⟨hbest, hlast, hqueue⟩ := ih (events ++ [.send peer₀])
    rw [append_assoc, run_concat] at hbest hlast hqueue
    obtain ⟨sentRoutes, hdest⟩ := sendOutgoingRoute_dest peer₀ (run cfg events)
    refine ⟨hbest.trans (by rw [step, hdest]),
      fun peer => (hlast peer).trans (sendOutgoingRoute_lastMsg ..), fun peer => ?_⟩
    refine (hqueue peer).trans ?_
    rw [step, sendOutgoingRoute_queue]
    by_cases hp : peer = peer₀
    · subst hp
      simp
    · simp [hp, Ne.symm hp]

/-- The record is the history of the messages that were sent. -/
theorem recorded_iff_hasSent (events : List Event) (q : Neighbor) :
    Recorded (run cfg events).1 q ↔ HasSent cfg q events := by
  refine History.iff_sinceAt (R := fun events => Recorded (run cfg events).1 q) ?_ ?_ events
  · simp [run, Recorded]
  · intro before event
    rw [run_concat]
    exact recorded_step cfg _ event q

/-- Whenever all queues are empty, after sending or at once, the last messages are right. -/
def Delivered (events : List Event) : Prop :=
  ∀ peers : List Peer,
    (∀ q ∈ cfg.neighbors, (run cfg (events ++ peers.map .send)).2.queue q.peer = []) →
    ∀ q ∈ cfg.neighbors, Right cfg (run cfg (events ++ peers.map .send)).1.bestPath
      ((run cfg (events ++ peers.map .send)).2.sent q.peer).getLast? q

theorem delivered_iff (events : List Event) :
    Delivered cfg events ↔ ∀ q ∈ cfg.neighbors,
      Right cfg (run cfg events).1.bestPath (lastMsg (run cfg events).2 q.peer) q := by
  have hsent : ∀ (peers : List Peer) (q : Neighbor),
      (run cfg (events ++ peers.map .send)).2.queue q.peer = [] →
      ((run cfg (events ++ peers.map .send)).2.sent q.peer).getLast? =
        lastMsg (run cfg events).2 q.peer := by
    intro peers q hempty
    rw [← (run_send cfg events peers).2.1, lastMsg, hempty, append_nil]
  constructor
  · intro h
    -- send as much as is on the queues
    let peers := cfg.neighbors.flatMap fun q =>
      List.replicate ((run cfg events).2.queue q.peer).length q.peer
    have hempty : ∀ q ∈ cfg.neighbors,
        (run cfg (events ++ peers.map .send)).2.queue q.peer = [] := by
      intro q hq
      rw [(run_send cfg events peers).2.2, drop_eq_nil_iff]
      have hsub : (List.replicate ((run cfg events).2.queue q.peer).length q.peer).Sublist peers :=
        sublist_flatten_of_mem (mem_map.2 ⟨q, hq, rfl⟩)
      exact replicate_sublist_iff.1 hsub
    intro q hq
    have hright := h peers hempty q hq
    rwa [hsent peers q (hempty q hq), (run_send cfg events peers).1] at hright
  · intro h peers hempty q hq
    rw [hsent peers q (hempty q hq), (run_send cfg events peers).1]
    exact h q hq

/-! ## Runs -/

theorem announced_process (h : Announced s.1) : Announced (process cfg s).1 := by
  by_cases htable : s.2.inTable
  · refine ⟨?_, ?_⟩
    · by_cases hempty : s.1.merged.knownPathList = []
      · rw [(process_empty htable hempty).1]
        simp
      · have hlists := (triple_processBest (NonVrf.pathProcessing (peerManager cfg)) cfg.localAsn
          s.1).final (s := s) rfl
        simp only [HasLists, pathLists, Prod.mk.injEq] at hlists
        intro path hpath
        rw [process_eq_best htable hempty, best, hlists.1, hlists.2.1] at hpath
        refine h.paths path (mem_merged ?_)
        simpa [merged] using hpath
    · by_cases hsettled : Settled cfg s.1
      · rw [(process_settled htable hsettled).1]
        exact h.bestPath
      · obtain ⟨new, reason, hk, hne⟩ := exists_of_not_settled hsettled
        rw [(process_change htable hk hne).1]
        exact h.found hk
  · simpa [process, htable] using h

theorem announced_step (h : Announced s.1) (event : Event) : Announced (step cfg s event).1 := by
  cases event with
  | learn path =>
    simp only [step, learnPath]
    split
    · exact ⟨h.paths, h.bestPath⟩
    · rename_i hw
      refine ⟨fun p hp => ?_, h.bestPath⟩
      simp only [addNewPath, ← append_assoc] at hp
      rcases mem_append.1 hp with hp | hp
      · exact h.paths p hp
      · rw [mem_singleton.1 hp]
        simpa using hw
  | process => exact announced_process cfg h
  | send peer =>
    obtain ⟨sentRoutes, hdest⟩ := sendOutgoingRoute_dest peer s
    rw [step, hdest]
    exact ⟨h.paths, h.bestPath⟩

/-- Only processing changes the best path or the last messages. -/
theorem step_unchanged {event : Event} (h : event = .process → s.2.inTable = false) :
    (step cfg s event).1.bestPath = s.1.bestPath ∧
      ∀ peer, lastMsg (step cfg s event).2 peer = lastMsg s.2 peer := by
  cases event with
  | learn path =>
    refine ⟨?_, fun _ => rfl⟩
    simp only [step, learnPath]
    cases path.isWithdraw <;> rfl
  | process => simp [step, process, h rfl]
  | send peer =>
    obtain ⟨sentRoutes, hdest⟩ := sendOutgoingRoute_dest peer s
    exact ⟨by rw [step, hdest], fun peer' => sendOutgoingRoute_lastMsg peer peer' s⟩

/-- The announcements are out, and the last messages stand. -/
structure Inv (s : Destination × Outgoing) : Prop where
  announced : Announced s.1
  stands : ∀ q ∈ cfg.neighbors, Stands cfg s.1.bestPath (lastMsg s.2 q.peer) q

theorem inv_step (h : Inv cfg s) {event : Event}
    (hsafe : event = .process → s.2.inTable → Safe cfg s (Recorded s.1)) :
    Inv cfg (step cfg s event) := by
  refine ⟨announced_step cfg h.announced event, ?_⟩
  by_cases hprocess : event = .process ∧ s.2.inTable
  · obtain ⟨rfl, htable⟩ := hprocess
    exact stands_process htable h.stands (hsafe rfl htable)
  · obtain ⟨hbest, hlast⟩ := @step_unchanged cfg s event fun he => by simpa [he] using hprocess
    rw [hbest]
    simpa only [hlast] using h.stands

theorem right_step_iff (h : Inv cfg s) (event : Event) :
    (∀ q ∈ cfg.neighbors,
      Right cfg (step cfg s event).1.bestPath (lastMsg (step cfg s event).2 q.peer) q) ↔
      (event = .process → s.2.inTable → Safe cfg s (Recorded s.1)) := by
  constructor
  · rintro hright rfl htable
    exact safe_of_right htable h.announced h.stands hright
  · intro hsafe q hq
    exact ((inv_step cfg h hsafe).stands q hq).right

/-- In every run, the last messages are right whenever all is sent, exactly if each processing of
the destination is safe. -/
theorem delivered_iff_safe (events : List Event) :
    (∀ before event after, events = before ++ event :: after → Delivered cfg (before ++ [event])) ↔
    ∀ before after, events = before ++ .process :: after → (run cfg before).2.inTable →
      Safe cfg (run cfg before) (HasSent cfg · before) := by
  have hsent : ∀ before, (HasSent cfg · before) = Recorded (run cfg before).1 := fun before =>
    funext fun q => propext (recorded_iff_hasSent cfg before q).symm
  simp only [hsent]
  rw [← History.throughout_event_iff]
  refine History.throughout_iff (fun before => Inv cfg (run cfg before)) ?_ ?_ ?_ events
  · exact ⟨⟨by simp [run], by simp [run]⟩, by simp [run, Stands, announcement, lastMsg]⟩
  · intro before event h
    rw [delivered_iff, run_concat]
    exact right_step_iff cfg h event
  · intro before event h hevent
    rw [run_concat]
    exact inv_step cfg h hevent

/-- One external peer besides the one the path comes from. -/
def onePeer : AdvertiseConfig where
  localAsn := 65000
  neighbors := [{ peer := ⟨2, 65002, 2, 1⟩, families := [rfIPv4UC] }]
  nodup := by decide

/-- A path is announced and withdrawn, and the destination is processed both times. -/
def announceWithdraw : List Event :=
  [.learn (externalPath 1 none 1), .process, .learn ((externalPath 1 none 1).clone true), .process]

/-- The path is withdrawn while its announcement is still on the queue, and the peer is never sent
a withdrawal. -/
theorem not_delivered_announceWithdraw : ¬Delivered onePeer announceWithdraw := by
  intro h
  have hqueue : (run onePeer (announceWithdraw ++ [.send ⟨2, 65002, 2, 1⟩])).2.queue
      ⟨2, 65002, 2, 1⟩ = [] := by
    decide +kernel
  have hright := h [⟨2, 65002, 2, 1⟩] (by simpa [onePeer] using hqueue) _ mem_cons_self
  exact absurd (hright (externalPath 1 none 1) rfl) (by decide)

end Advertise

end BebaCtrl.Bgp
