import BebaCtrl.Bgp.Advertise

/-!
# Changes of the route-target filter of a peer

A peer is sent the routes that have a route target of its filter. When the filter changes, only the
route targets that were added and those that were removed are known: a route that was sent is
withdrawn if all of its targets were removed, and one that was not sent is sent if one was added.

An exception ends the loop over the destinations; what was done before it is not kept in the model.
-/

namespace BebaCtrl.Bgp.RtFilter

open Option

/-- The difference of two sets of route targets. -/
def difference (rts rts' : List RouteTarget) : List RouteTarget :=
  rts.filter fun rt => !rts'.contains rt

def wasSentTo (dest : Destination) (peer : Peer) : Bool :=
  dest.sentRoutes.any fun route => route.sentPeer = peer

/-- The destination without the record of the route, and the withdrawal that is put on the queue. -/
def withdrawIfSentTo (dest : Destination) (peer : Peer) : Destination × List Path :=
  match dest.sentRoutes.find? fun route => route.sentPeer = peer with
  | none => (dest, [])
  | some sentRoute =>
    ({ dest with sentRoutes := dest.sentRoutes.filter fun route => route.sentPeer ≠ peer },
      [sentRoute.path.clone true])

variable (localAsn : Nat) (q : Neighbor)

/-- What is done for one destination, and the messages for the peer. -/
def syncDest (newRts oldRts : List RouteTarget) (dest : Destination) :
    PyResult (Destination × List Path) :=
  match dest.bestPath with
  | none => return (dest, [])
  | some bestPath => do
    let desiredRts := bestPath.getRts
    if wasSentTo dest q.peer then
      if difference desiredRts oldRts = [] then return withdrawIfSentTo dest q.peer
      else return (dest, [])
    else if (desiredRts ++ [defaultRt]).any fun rt => newRts.contains rt then
      return (dest, ← q.communicatePath localAsn bestPath)
    else return (dest, [])

def onRtFilterChgSyncPeer (newRts oldRts : List RouteTarget) (table : List Destination) :
    PyResult (List (Destination × List Path)) :=
  table.mapM (syncDest localAsn q newRts oldRts)

/-- The best path of the destination has a route target of the filter. -/
def permits (rtfilter : List RouteTarget) (dest : Destination) : Bool :=
  dest.bestPath.any fun bestPath => bestPath.hasRtsIn rtfilter

/-- The destination counts as sent, or is going to be sent. -/
def sent (r : Destination × List Path) : Bool :=
  wasSentTo r.1 q.peer || r.2.any fun msg => !msg.isWithdraw

/-- `communicate_path` sends what the filter lets through. -/
def Communicates (rtfilter : List RouteTarget) (table : List Destination) : Prop :=
  ∀ dest ∈ table, ∀ bestPath ∈ dest.bestPath, bestPath.hasRtsIn rtfilter →
    ∃ routes, q.communicatePath localAsn bestPath = .ok routes ∧ ∃ msg ∈ routes, ¬msg.isWithdraw

/-- The routes that were sent before are those of the previous filter, and those that are sent now
are those of the current one. -/
def Syncs (previous current : List RouteTarget) (table : List Destination) : Prop :=
  ∃ results, onRtFilterChgSyncPeer localAsn q (difference current previous)
      (difference previous current) table = .ok results ∧
    results.map (sent q) = table.map (permits current)

/-! ## One destination -/

variable {localAsn q} {previous current rts rts' : List RouteTarget} {dest : Destination}
  {path : Path}

theorem mem_difference {rt : RouteTarget} : rt ∈ difference rts rts' ↔ rt ∈ rts ∧ rt ∉ rts' := by
  simp [difference]

theorem difference_eq_nil : difference rts rts' = [] ↔ ∀ rt ∈ rts, rt ∈ rts' := by
  simp [difference]

theorem hasRtsIn_iff : path.hasRtsIn rts ↔ (∃ rt ∈ path.getRts, rt ∈ rts) ∨ defaultRt ∈ rts := by
  simp [Path.hasRtsIn]

theorem wasSentTo_withdrawIfSentTo (dest : Destination) (peer : Peer) :
    wasSentTo (withdrawIfSentTo dest peer).1 peer = false := by
  unfold withdrawIfSentTo
  split
  · rename_i hnone
    simpa [wasSentTo] using hnone
  · simp [wasSentTo]

theorem sent_withdrawIfSentTo (dest : Destination) :
    sent q (withdrawIfSentTo dest q.peer) = false := by
  rw [sent, wasSentTo_withdrawIfSentTo]
  unfold withdrawIfSentTo
  split <;> simp [Path.clone]

/-- A route that was sent stays unless all of its targets were removed. -/
theorem syncDest_sent_iff (hpath : dest.bestPath = some path) (hsent : wasSentTo dest q.peer) :
    (∃ r, syncDest localAsn q (difference current previous) (difference previous current) dest
      = .ok r ∧ sent q r = permits current dest) ↔
    ((∀ rt ∈ path.getRts, rt ∉ current) →
      ((∀ rt ∈ path.getRts, rt ∈ previous) ↔ defaultRt ∉ current)) := by
  have hpermits : permits current dest = path.hasRtsIn current := by simp [permits, hpath]
  have hremoved : difference path.getRts (difference previous current) = [] ↔
      (∀ rt ∈ path.getRts, rt ∈ previous) ∧ ∀ rt ∈ path.getRts, rt ∉ current := by
    simp only [difference_eq_nil, mem_difference, ← forall₂_and]
  simp only [syncDest, hpath, hsent, if_true, hpermits]
  by_cases hnil : difference path.getRts (difference previous current) = []
  · have hall := hremoved.1 hnil
    simp only [hnil, if_true, Except.ok.injEq, exists_eq_left', sent_withdrawIfSentTo, pure_eq_ok]
    rw [eq_comm, Bool.eq_false_iff, ne_eq, hasRtsIn_iff]
    constructor
    · exact fun h _ => iff_of_true hall.1 fun hdefault => h (.inr hdefault)
    · rintro h (⟨rt, hrt, hcur⟩ | hdefault)
      · exact hall.2 rt hrt hcur
      · exact (h hall.2).1 hall.1 hdefault
  · have hstays : sent q (dest, []) = true := by simp [sent, hsent]
    simp only [hnil, if_false, Except.ok.injEq, exists_eq_left', hstays, pure_eq_ok]
    rw [eq_comm, hasRtsIn_iff]
    constructor
    · rintro (⟨rt, hrt, hcur⟩ | hdefault) hnone
      · exact absurd hcur (hnone rt hrt)
      · exact iff_of_false (fun hprev => hnil (hremoved.2 ⟨hprev, hnone⟩)) (not_not_intro hdefault)
    · intro h
      by_contra hnot
      have hnone : ∀ rt ∈ path.getRts, rt ∉ current :=
        fun rt hrt hcur => hnot (.inl ⟨rt, hrt, hcur⟩)
      exact hnil (hremoved.2 ⟨(h hnone).2 fun hdefault => hnot (.inr hdefault), hnone⟩)

/-- A route that was not sent has no target of the previous filter, so those that were added are the
ones of the current filter. -/
theorem syncDest_not_sent (hpath : dest.bestPath = some path)
    (hsent : wasSentTo dest q.peer = false) (hprevious : path.hasRtsIn previous = false)
    (hcommunicates : path.hasRtsIn current → ∃ routes,
      q.communicatePath localAsn path = .ok routes ∧ ∃ msg ∈ routes, ¬msg.isWithdraw) :
    ∃ r, syncDest localAsn q (difference current previous) (difference previous current) dest
      = .ok r ∧ sent q r = permits current dest := by
  have hadded : path.hasRtsIn (difference current previous) = path.hasRtsIn current := by
    rw [Bool.eq_iff_iff]
    rw [Bool.eq_false_iff, ne_eq, hasRtsIn_iff] at hprevious
    simp only [hasRtsIn_iff, mem_difference]
    constructor
    · rintro (⟨rt, hrt, hcur, -⟩ | ⟨hcur, -⟩)
      · exact .inl ⟨rt, hrt, hcur⟩
      · exact .inr hcur
    · rintro (⟨rt, hrt, hcur⟩ | hcur)
      · exact .inl ⟨rt, hrt, hcur, fun hprev => hprevious (.inl ⟨rt, hrt, hprev⟩)⟩
      · exact .inr ⟨hcur, fun hprev => hprevious (.inr hprev)⟩
  have hpermits : permits current dest = path.hasRtsIn current := by simp [permits, hpath]
  simp only [syncDest, hpath, hsent, hpermits]
  change ∃ r,
      (if false = true then _ else if path.hasRtsIn (difference current previous) = true then _
    else _) = _ ∧ _
  rw [hadded, if_neg (by decide)]
  cases hcur : path.hasRtsIn current with
  | true =>
    obtain ⟨routes, hroutes, msg, hmsg, hannounced⟩ := hcommunicates hcur
    refine ⟨(dest, routes), by rw [hroutes]; rfl, ?_⟩
    simp only [sent, hsent, Bool.false_or, List.any_eq_true]
    exact ⟨msg, hmsg, by simpa using hannounced⟩
  | false => exact ⟨(dest, []), rfl, by simp [sent, hsent]⟩

/-- The change is right if, of the routes that were sent and have no target of the current filter,
those with all of their targets in the previous filter are the ones to withdraw: all of them, or
none if the default target is in the current filter. -/
theorem syncs_iff (localAsn : Nat) (q : Neighbor) (previous current : List RouteTarget)
    (table : List Destination)
    (hsent : ∀ dest ∈ table, wasSentTo dest q.peer = permits previous dest)
    (hcommunicates : Communicates localAsn q current table) :
    Syncs localAsn q previous current table ↔
      ∀ dest ∈ table, ∀ bestPath ∈ dest.bestPath, bestPath.hasRtsIn previous →
        (∀ rt ∈ bestPath.getRts, rt ∉ current) →
        ((∀ rt ∈ bestPath.getRts, rt ∈ previous) ↔ defaultRt ∉ current) := by
  unfold Syncs onRtFilterChgSyncPeer
  rw [exists_mapM_iff]
  refine forall₂_congr fun dest hdest => ?_
  have hdestSent := hsent dest hdest
  cases hpath : dest.bestPath with
  | none =>
    have hunsent : wasSentTo dest q.peer = false := by simpa [permits, hpath] using hdestSent
    refine iff_of_true ⟨(dest, []), ?_, ?_⟩ (by simp)
    · simp [syncDest, hpath]
    · simp [sent, hunsent, permits, hpath]
  | some path =>
    have hpermits : permits previous dest = path.hasRtsIn previous := by simp [permits, hpath]
    rw [hpermits] at hdestSent
    simp only [mem_def, some.injEq, forall_eq']
    cases hprevious : path.hasRtsIn previous with
    | true =>
      rw [hprevious] at hdestSent
      simp only [forall_const]
      exact syncDest_sent_iff hpath hdestSent
    | false =>
      rw [hprevious] at hdestSent
      exact iff_of_true (syncDest_not_sent hpath hdestSent hprevious
        (hcommunicates dest hdest path hpath)) (by simp)

/-- A peer that has negotiated VPN routes and route-target constraints. -/
def vpnNeighbor (rtfilter : List RouteTarget) : Neighbor where
  peer := ⟨1, 65001, 1, 2⟩
  families := [rfIPv4VPN, rfRTCUC]
  rtFilter := some (some rtfilter)

/-- A VPN route with the given route targets of the AS 65000. -/
def vpnPath (targets : List Nat) : Path where
  id := 0
  source := none
  nlri := .vpnIp 112 [20] (.twoOctetAs 65000 1) [10, 0, 0, 0]
  sourceVersionNum := 1
  pathAttrMap := { extendedCommunities := some (targets.map (.twoOctetAs 0 2 65000)) }

def vpnDest (targets : List Nat) (sentTo : List Peer) : Destination where
  bestPath := some (vpnPath targets)
  sentRoutes := sentTo.map fun peer => ⟨vpnPath targets, peer⟩

/-- The filter changes from one target to another, and so do the routes. -/
theorem syncs_exchanged :
    Syncs 65000 (vpnNeighbor [.ofAs 65000 2]) [.ofAs 65000 1] [.ofAs 65000 2]
      [vpnDest [1] [⟨1, 65001, 1, 2⟩], vpnDest [2] []] := by
  refine (syncs_iff _ _ _ _ _ (by decide) ?_).2 (by decide)
  simp only [Communicates, List.forall_mem_cons, List.not_mem_nil, false_imp_iff, implies_true,
    and_true, vpnDest, mem_def, some.injEq, forall_eq']
  exact ⟨fun h => absurd h (by decide),
    fun _ => ⟨[vpnPath [2]], by decide, vpnPath [2], by simp, by decide⟩⟩

/-- A route with a second target, in which the peer was never interested, is not withdrawn when the
filter becomes empty, and no route is when the default target goes. One is withdrawn though the
default target stays. -/
theorem not_syncs_second_target :
    wasSentTo (vpnDest [1, 2] [⟨1, 65001, 1, 2⟩]) ⟨1, 65001, 1, 2⟩ =
      permits [.ofAs 65000 1] (vpnDest [1, 2] [⟨1, 65001, 1, 2⟩]) ∧
    ¬Syncs 65000 (vpnNeighbor []) [.ofAs 65000 1] [] [vpnDest [1, 2] [⟨1, 65001, 1, 2⟩]] ∧
    ¬Syncs 65000 (vpnNeighbor []) [defaultRt] [] [vpnDest [1] [⟨1, 65001, 1, 2⟩]] ∧
    ¬Syncs 65000 (vpnNeighbor [defaultRt]) [.ofAs 65000 1, defaultRt] [defaultRt]
      [vpnDest [1] [⟨1, 65001, 1, 2⟩]] := by
  refine ⟨by decide, ?_, ?_, ?_⟩
  all_goals
    rintro ⟨results, hok, hsent⟩
    cases hok
    revert hsent
    decide

end BebaCtrl.Bgp.RtFilter
