import Mathlib.Data.List.AList
import BebaCtrl.Lib.Dict
import BebaCtrl.Bgp.Destination

/-!
# The global tables and the loss of a session

A path that a peer announces goes into a destination of a global table, and the destination goes on
the queue of the processor. When the session of the peer is lost, the peer gets a new version number
and the known paths of older versions are removed. New paths that wait to be processed are not.
-/

namespace BebaCtrl.Bgp

open List Function Destination AList

/-- What the tables use of the rest of the speaker. -/
structure TableConfig (κ τ : Type) where
  localAsn : Nat
  /-- the route family and the key in its table -/
  tableKey : Nlri → κ
  isRtc : κ → Bool
  commNewBestToBgpPeers : Path → PyM τ Unit
  enqueOutgoingMsg : Peer → Path → τ → τ
  clearOutgoingMsgList : Peer → τ → τ

/-- The destinations of all global tables. One that is on a queue is also in its table, so that the
queues hold keys. -/
structure Tables (κ τ : Type) where
  destinations : AList fun _ : κ => Destination := ∅
  /-- `_rtdest_queue` and `_dest_queue` -/
  queue : Bool → List κ := fun _ => []
  versionNum : Peer → Nat := fun _ => 1
  /-- does the peer have a protocol? -/
  protocol : Peer → Bool := fun _ => false
  peers : τ

namespace Destination

/-- Is the path an old one from the source? -/
def IsOld (source : Peer) (versionNum : Nat) (path : Path) : Prop :=
  path.source = some source ∧ path.sourceVersionNum < versionNum

instance (source : Peer) (versionNum : Nat) : DecidablePred (IsOld source versionNum) :=
  fun _ => inferInstanceAs (Decidable (_ ∧ _))

/-- The removed paths, last one first. -/
def removeOldPathsFromSource (source : Peer) (versionNum : Nat) (dest : Destination) :
    List Path × Destination :=
  ((dest.knownPathList.filter fun path => IsOld source versionNum path).reverse,
    { dest with
      knownPathList := dest.knownPathList.filter fun path => ¬IsOld source versionNum path })

def removeSentRoute (peer : Peer) (dest : Destination) : Destination :=
  { dest with sentRoutes := dest.sentRoutes.filter fun route => route.sentPeer ≠ peer }

/-- A destination after the clean-up for a peer. -/
def cleaned (peer : Peer) (versionNum : Nat) (dest : Destination) : Destination :=
  (dest.removeOldPathsFromSource peer versionNum).2.removeSentRoute peer

theorem mem_cleaned {peer : Peer} {versionNum : Nat} {dest : Destination} {path : Path} :
    path ∈ (cleaned peer versionNum dest).knownPathList ↔
      path ∈ dest.knownPathList ∧ ¬IsOld peer versionNum path := by
  simp [cleaned, removeOldPathsFromSource, removeSentRoute]

theorem cleaned_cleaned (peer : Peer) (versionNum : Nat) (dest : Destination) :
    cleaned peer versionNum (cleaned peer versionNum dest) = cleaned peer versionNum dest := by
  simp [cleaned, removeOldPathsFromSource, removeSentRoute, filter_filter]

end Destination

namespace Tables

variable {κ τ : Type} [DecidableEq κ] (cfg : TableConfig κ τ)

def enqueue (k : κ) (t : Tables κ τ) : Tables κ τ :=
  if k ∈ t.queue (cfg.isRtc k) then t
  else { t with
    queue := Function.update t.queue (cfg.isRtc k) (t.queue (cfg.isRtc k) ++ [k]) }

def insert (path : Path) (t : Tables κ τ) : Tables κ τ :=
  let k := cfg.tableKey path.nlri
  let dest := (t.destinations.lookup k).getD {}
  let dest := if path.isWithdraw then dest.addWithdraw path else dest.addNewPath path
  { t with destinations := t.destinations.insert k dest }

def learnPath (path : Path) (t : Tables κ τ) : Tables κ τ :=
  enqueue cfg (cfg.tableKey path.nlri) (insert cfg path t)

/-! ## Processing -/

def peerManager (k : κ) : PeerManager (Tables κ τ) where
  commNewBestToBgpPeers path := fun t =>
    ((cfg.commNewBestToBgpPeers path t.peers).1,
      { t with peers := (cfg.commNewBestToBgpPeers path t.peers).2 })
  enqueOutgoingMsg peer path t := { t with peers := cfg.enqueOutgoingMsg peer path t.peers }
  deleteDest := fun t =>
    if k ∈ t.destinations then (.ok (), { t with destinations := t.destinations.erase k })
    else (.error .keyError, t)

def processDest (k : κ) (dest : Destination) (t : Tables κ τ) : Destination × Tables κ τ :=
  (process (NonVrf.pathProcessing (peerManager cfg k)) cfg.localAsn (dest, t)).2

/-- Process the first destination of a queue. -/
def processNext (rt : Bool) (t : Tables κ τ) : Tables κ τ :=
  match t.queue rt with
  | [] => t
  | k :: queue =>
    let t := { t with queue := Function.update t.queue rt queue }
    match t.destinations.lookup k with
    | none => t
    | some dest =>
      let (dest', t') := processDest cfg k dest t
      if k ∈ t'.destinations then { t' with destinations := t'.destinations.insert k dest' } else t'

/-- Process what is queued. -/
def processAll (t : Tables κ τ) : Tables κ τ :=
  let t := (processNext cfg true)^[(t.queue true).length] t
  (processNext cfg false)^[(t.queue false).length] t

/-! ## Loss of a session -/

def cleanupDest (peer : Peer) (t : Tables κ τ) (k : κ) : Tables κ τ :=
  match t.destinations.lookup k with
  | none => t
  | some dest =>
    let (pathsDeleted, dest) := dest.removeOldPathsFromSource peer (t.versionNum peer)
    let t := { t with destinations := t.destinations.insert k (dest.removeSentRoute peer) }
    if pathsDeleted ≠ [] then enqueue cfg k t else t

def cleanStaleRoutes (peer : Peer) (t : Tables κ τ) : Tables κ τ :=
  t.destinations.keys.foldl (cleanupDest cfg peer) t

def connectionLost (peer : Peer) (t : Tables κ τ) : Tables κ τ :=
  if t.protocol peer then
    cleanStaleRoutes cfg peer { t with
      protocol := Function.update t.protocol peer false
      peers := cfg.clearOutgoingMsgList peer t.peers
      versionNum := Function.update t.versionNum peer (t.versionNum peer + 1) }
  else t

/-! ## Runs -/

inductive Event where
  | connectionMade (peer : Peer)
  /-- A route of an UPDATE of the peer, announced or withdrawn. -/
  | update (peer : Peer) (path : Path)
  /-- A path of the speaker itself. -/
  | localPath (path : Path)
  | process (rt : Bool)
  | connectionLost (peer : Peer)

def step (t : Tables κ τ) : Event → Tables κ τ
  | .connectionMade peer => { t with protocol := Function.update t.protocol peer true }
  | .update peer path =>
    if t.protocol peer then
      learnPath cfg
        { path with source := some peer, sourceVersionNum := t.versionNum peer } t
    else t
  | .localPath path => learnPath cfg { path with source := none } t
  | .process rt => processNext cfg rt t
  | .connectionLost peer => connectionLost cfg peer t

def run (peers : τ) (events : List Event) : Tables κ τ := events.foldl (step cfg) { peers }

/-- No known path is of an older session than its peer. -/
def NoStale (t : Tables κ τ) : Prop :=
  ∀ k, ∀ dest ∈ t.destinations.lookup k, ∀ path ∈ dest.knownPathList, ∀ peer,
    path.source = some peer → t.versionNum peer ≤ path.sourceVersionNum

/-- No path of the peer waits to be processed. -/
def NoPending (peer : Peer) (t : Tables κ τ) : Prop :=
  ∀ k, ∀ dest ∈ t.destinations.lookup k, ∀ path ∈ dest.newPathList, path.source ≠ some peer

/-! ## What a step does -/

variable {cfg}

/-- The tables as they are or without the processed destination. -/
theorem processDest_eq (k : κ) (dest : Destination) (t : Tables κ τ) :
    ∃ peers dest', dest'.pathLists = dest.merged.pathLists ∧
      (processDest cfg k dest t = (dest', { t with peers }) ∨
        dest.merged.knownPathList = [] ∧ processDest cfg k dest t =
          (dest', { t with peers, destinations := t.destinations.erase k })) := by
  have hpeers :=
    processBest_keeps (T := fun t' => ∃ peers, t' = { t with peers }) (peerManager cfg k)
    (by rintro peer path _ ⟨peers, rfl⟩; exact ⟨_, rfl⟩)
    (by rintro path _ ⟨peers, rfl⟩; exact ⟨_, rfl⟩) cfg.localAsn dest ⟨t.peers, rfl⟩
  have hlists := process_pathLists (NonVrf.pathProcessing (peerManager cfg k)) cfg.localAsn dest t
  unfold processDest
  rw [process_apply] at hlists ⊢
  cases hbest : processBest (NonVrf.pathProcessing (peerManager cfg k)) cfg.localAsn (dest, t) with
  | mk r s =>
    rw [hbest] at hpeers hlists
    obtain ⟨dest', t'⟩ := s
    obtain ⟨peers, rfl⟩ := hpeers
    cases r with
    | error e => exact ⟨peers, dest', hlists, .inl rfl⟩
    | ok u =>
      dsimp only at hlists ⊢
      split_ifs at hlists ⊢ with hempty
      · have hknown : dest'.knownPathList = dest.merged.knownPathList := congrArg Prod.fst hlists
        simp only [NonVrf.pathProcessing, PyM.onSnd, peerManager]
        by_cases hk : k ∈ t.destinations
        · exact ⟨peers, dest', hlists, .inr ⟨hknown ▸ hempty.1, by simp [hk]⟩⟩
        · exact ⟨peers, dest', hlists, .inl (by simp [hk])⟩
      · exact ⟨peers, dest', hlists, .inl rfl⟩

/-- A step of the processor merges the lists of the first destination of the queue, and may remove
it when no path is known. -/
theorem processNext_eq (rt : Bool) (t : Tables κ τ) :
    ∃ peers destinations, processNext cfg rt t = { t with
        queue := Function.update t.queue rt (t.queue rt).tail, peers, destinations } ∧
      (∀ k, (t.queue rt).head? ≠ some k → destinations.lookup k = t.destinations.lookup k) ∧
      ∀ k, (t.queue rt).head? = some k →
        (destinations.lookup k = none ∧
          ∀ dest ∈ t.destinations.lookup k, dest.merged.knownPathList = []) ∨
        ∃ dest ∈ t.destinations.lookup k, ∃ dest' ∈ destinations.lookup k,
          dest'.pathLists = dest.merged.pathLists := by
  unfold processNext
  cases hq : t.queue rt with
  | nil =>
    have hqueue : Function.update t.queue rt [] = t.queue := by rw [← hq, update_eq_self]
    exact ⟨t.peers, t.destinations, by simp [hqueue], fun _ _ => rfl, by simp⟩
  | cons k queue =>
    cases hk : t.destinations.lookup k with
    | none =>
      refine ⟨t.peers, t.destinations, by simp [hk], fun _ _ => rfl, ?_⟩
      intro k' hk'
      cases hk'
      simp [hk]
    | some dest =>
      have hmem : k ∈ t.destinations := lookup_isSome.1 (by rw [hk]; rfl)
      simp only [hk]
      obtain ⟨peers, dest', hlists, h | ⟨hnil, h⟩⟩ := @processDest_eq κ τ _ cfg k dest
        { t with queue := Function.update t.queue rt queue }
      · refine ⟨peers, t.destinations.insert k dest', by simp [h, hmem], ?_, ?_⟩
        · intro k' hk'
          exact lookup_insert_ne (by grind)
        · intro k' hk'
          cases hk'
          exact .inr ⟨dest, hk, dest', lookup_insert _, hlists⟩
      · refine ⟨peers, t.destinations.erase k, by simp [h, mem_erase], ?_, ?_⟩
        · intro k' hk'
          exact lookup_erase_ne (by grind)
        · intro k' hk'
          cases hk'
          refine .inl ⟨lookup_erase _ _, fun d hd => ?_⟩
          cases hk.symm.trans hd
          exact hnil

variable (cfg) in
theorem enqueue_eq (k : κ) (t : Tables κ τ) : enqueue cfg k t = { t with
    queue := fun rt =>
      if rt = cfg.isRtc k ∧ k ∉ t.queue rt then t.queue rt ++ [k] else t.queue rt } := by
  unfold enqueue
  split
  next hk =>
    have hnot : ∀ rt, ¬(rt = cfg.isRtc k ∧ k ∉ t.queue rt) := by grind
    simp only [hnot, if_false]
  next hk =>
    congr
    funext rt
    grind [update_apply]

variable (cfg) in
/-- The queues hold each destination of the tables once, on its own queue, if it has new paths. -/
structure Queued (t : Tables κ τ) : Prop where
  nodup : ∀ rt, (t.queue rt).Nodup
  isRtc : ∀ rt, ∀ k ∈ t.queue rt, cfg.isRtc k = rt
  present : ∀ rt, ∀ k ∈ t.queue rt, k ∈ t.destinations
  pending : ∀ k, ∀ dest ∈ t.destinations.lookup k, dest.newPathList ≠ [] →
    k ∈ t.queue (cfg.isRtc k)

variable {k : κ}

/-- A destination is replaced and goes on its queue, unless it has no new paths. -/
theorem Queued.insert {t t' : Tables κ τ} {dest : Destination} (h : Queued cfg t)
    (hdest : t'.destinations = t.destinations.insert k dest)
    (hqueue : t'.queue = t.queue ∧ (dest.newPathList ≠ [] → k ∈ t.queue (cfg.isRtc k)) ∨
      t'.queue = (enqueue cfg k t).queue) : Queued cfg t' := by
  rw [enqueue_eq] at hqueue
  refine ⟨fun rt => ?_, fun rt k' => ?_, fun rt k' => ?_, fun k' dest' => ?_⟩
  · have hnodup := h.nodup rt
    grind
  · have := h.isRtc rt k'
    grind
  · have := h.present rt k'
    rw [hdest, mem_insert]
    grind
  · have := h.pending k' dest'
    rw [hdest, Dict.lookup_insert]
    grind

@[simp] theorem processNext_versionNum (rt : Bool) (t : Tables κ τ) :
    (processNext cfg rt t).versionNum = t.versionNum := by
  obtain ⟨peers, destinations, h, -⟩ := @processNext_eq _ _ _ cfg rt t
  rw [h]

theorem processNext_queue (rt rt' : Bool) (t : Tables κ τ) :
    (processNext cfg rt t).queue rt' = if rt' = rt then (t.queue rt).tail else t.queue rt' := by
  obtain ⟨peers, destinations, h, -⟩ := @processNext_eq _ _ _ cfg rt t
  rw [h]
  exact update_apply ..

variable {t : Tables κ τ}

theorem mem_queue_of_processNext {rt rt' : Bool} (h : k ∈ (processNext cfg rt t).queue rt') :
    k ∈ t.queue rt' := by
  rw [processNext_queue] at h
  split at h
  · rename_i heq
    exact heq ▸ mem_of_mem_tail h
  · exact h

/-- What a step of the processor leaves of a destination. -/
theorem processNext_lookup {rt : Bool} {dest' : Destination}
    (h : dest' ∈ (processNext cfg rt t).destinations.lookup k) :
    ∃ dest ∈ t.destinations.lookup k,
      (t.queue rt).head? = some k ∧ dest'.pathLists = dest.merged.pathLists ∨
      (t.queue rt).head? ≠ some k ∧ dest' = dest := by
  obtain ⟨peers, destinations, heq, hother, hhead⟩ := @processNext_eq _ _ _ cfg rt t
  rw [heq] at h
  by_cases hk : (t.queue rt).head? = some k
  · rcases hhead k hk with ⟨hnone, -⟩ | ⟨dest, hdest, dest₁, hdest₁, hlists⟩
    · cases hnone.symm.trans h
    · cases hdest₁.symm.trans h
      exact ⟨dest, hdest, .inl ⟨hk, hlists⟩⟩
  · rw [hother k hk] at h
    exact ⟨dest', h, .inr ⟨hk, rfl⟩⟩

theorem newPathList_eq_nil {dest dest' : Destination}
    (h : dest'.pathLists = dest.merged.pathLists) : dest'.newPathList = [] :=
  congrArg (fun lists => lists.2.1) h

theorem Queued.head_not_mem (h : Queued cfg t) {rt : Bool} (hk : (t.queue rt).head? = some k)
    (rt' : Bool) : k ∉ (processNext cfg rt t).queue rt' := by
  intro hmem
  have hrt := h.isRtc rt' k (mem_queue_of_processNext hmem)
  cases h.isRtc rt k (mem_of_mem_head? hk)
  cases hrt
  rw [processNext_queue, if_pos rfl] at hmem
  obtain ⟨queue, hqueue⟩ := head?_eq_some_iff.1 hk
  have hnodup := h.nodup (cfg.isRtc k)
  rw [hqueue] at hmem hnodup
  exact (nodup_cons.1 hnodup).1 hmem

theorem Queued.processNext (h : Queued cfg t) (rt : Bool) : Queued cfg (processNext cfg rt t) := by
  refine ⟨?_, ?_, ?_, ?_⟩
  · intro rt'
    rw [processNext_queue]
    split
    · exact (h.nodup rt).tail
    · exact h.nodup rt'
  · intro rt' k hk
    exact h.isRtc rt' k (mem_queue_of_processNext hk)
  · intro rt' k hk
    obtain ⟨peers, destinations, heq, hother, -⟩ := @processNext_eq _ _ _ cfg rt t
    have hne : (t.queue rt).head? ≠ some k := fun hhead => h.head_not_mem hhead rt' hk
    have hpresent := h.present rt' k (mem_queue_of_processNext hk)
    rw [← lookup_isSome] at hpresent ⊢
    rw [heq]
    rw [hother k hne]
    exact hpresent
  · intro k dest' hdest' hnew
    obtain ⟨dest, hdest, ⟨-, hlists⟩ | ⟨hne, rfl⟩⟩ := processNext_lookup hdest'
    · exact absurd (newPathList_eq_nil hlists) hnew
    · have hmem := h.pending k dest' hdest hnew
      rw [processNext_queue]
      split
      · cases hq : t.queue rt <;> grind
      · exact hmem

/-! ## The clean-up -/

/-- A destination that is there is cleaned, and may go on its queue. -/
theorem cleanupDest_eq (peer : Peer) (t : Tables κ τ) (k : κ) :
    t.destinations.lookup k = none ∧ cleanupDest cfg peer t k = t ∨
    ∃ dest t', t.destinations.lookup k = some dest ∧ (t' = t ∨ t' = enqueue cfg k t) ∧
      cleanupDest cfg peer t k = { t' with
        destinations := t.destinations.insert k (cleaned peer (t.versionNum peer) dest) } := by
  unfold cleanupDest
  cases hk : t.destinations.lookup k with
  | none => exact .inl ⟨rfl, rfl⟩
  | some dest =>
    dsimp only
    split
    · exact .inr ⟨dest, _, rfl, .inr rfl, by rw [enqueue_eq, enqueue_eq]; rfl⟩
    · exact .inr ⟨dest, t, rfl, .inl rfl, rfl⟩

theorem cleanupDest_versionNum (peer : Peer) (t : Tables κ τ) (k : κ) :
    (cleanupDest cfg peer t k).versionNum = t.versionNum := by
  obtain ⟨-, h⟩ | ⟨dest, t', -, ht', h⟩ := @cleanupDest_eq _ _ _ cfg peer t k
  · rw [h]
  · rw [h]
    grind [enqueue_eq]

theorem cleanupDest_lookup (peer : Peer) (t : Tables κ τ) (k k' : κ) :
    (cleanupDest cfg peer t k).destinations.lookup k' =
      if k' = k then (t.destinations.lookup k').map (cleaned peer (t.versionNum peer))
      else t.destinations.lookup k' := by
  obtain ⟨hk, h⟩ | ⟨dest, t', hk, -, h⟩ := @cleanupDest_eq _ _ _ cfg peer t k
  · rw [h]
    grind
  · rw [h, Dict.lookup_insert]
    grind

theorem Queued.cleanupDest (h : Queued cfg t) (peer : Peer) (k : κ) :
    Queued cfg (cleanupDest cfg peer t k) := by
  obtain ⟨-, heq⟩ | ⟨dest, t', hk, ht', heq⟩ := @cleanupDest_eq _ _ _ cfg peer t k
  · rwa [heq]
  · rw [heq]
    refine h.insert rfl ?_
    rcases ht' with rfl | rfl
    · exact .inl ⟨rfl, h.pending k dest hk⟩
    · exact .inr rfl

theorem cleanupDest_foldl (peer : Peer) (t : Tables κ τ) (keys : List κ) :
    (keys.foldl (cleanupDest cfg peer) t).versionNum = t.versionNum ∧
    (Queued cfg t → Queued cfg (keys.foldl (cleanupDest cfg peer) t)) ∧
    ∀ k, (keys.foldl (cleanupDest cfg peer) t).destinations.lookup k =
      if k ∈ keys then (t.destinations.lookup k).map (cleaned peer (t.versionNum peer))
      else t.destinations.lookup k := by
  induction keys generalizing t with
  | nil => simp
  | cons k₀ keys ih =>
    obtain ⟨hversion, hqueued, hlookup⟩ := ih (cleanupDest cfg peer t k₀)
    refine ⟨hversion.trans (cleanupDest_versionNum peer t k₀),
      fun h => hqueued (h.cleanupDest peer k₀), fun k => ?_⟩
    rw [foldl_cons, hlookup, cleanupDest_lookup, cleanupDest_versionNum]
    by_cases hk : k = k₀
    · subst hk
      by_cases hmem : k ∈ keys
      · simp [hmem, comp_def, cleaned_cleaned]
      · simp [hmem]
    · simp [hk]

/-- The loss of a session cleans every destination. -/
theorem connectionLost_spec {peer : Peer} {t : Tables κ τ} (hprotocol : t.protocol peer) :
    (connectionLost cfg peer t).versionNum =
        Function.update t.versionNum peer (t.versionNum peer + 1) ∧
    (Queued cfg t → Queued cfg (connectionLost cfg peer t)) ∧
    ∀ k, (connectionLost cfg peer t).destinations.lookup k =
      (t.destinations.lookup k).map (cleaned peer (t.versionNum peer + 1)) := by
  unfold connectionLost cleanStaleRoutes
  rw [if_pos hprotocol]
  obtain ⟨hversion, hqueued, hlookup⟩ := @cleanupDest_foldl _ _ _ cfg peer { t with
    protocol := Function.update t.protocol peer false
    peers := cfg.clearOutgoingMsgList peer t.peers
    versionNum := Function.update t.versionNum peer (t.versionNum peer + 1) } t.destinations.keys
  refine ⟨hversion, fun h => hqueued ⟨h.nodup, h.isRtc, h.present, h.pending⟩, fun k => ?_⟩
  rw [hlookup]
  split
  · simp
  · rename_i hk
    rw [← AList.mem_keys, ← AList.lookup_eq_none] at hk
    simp [hk]

/-! ## The invariant of a run -/

/-- The known and new paths are of the current session of their peer. -/
def Fresh (t : Tables κ τ) : Prop :=
  ∀ k, ∀ dest ∈ t.destinations.lookup k, ∀ path ∈ dest.knownPathList ++ dest.newPathList, ∀ peer,
    path.source = some peer → path.sourceVersionNum = t.versionNum peer

theorem Fresh.noStale (h : Fresh t) : NoStale t := by
  intro k dest hdest path hpath peer hsource
  exact (h k dest hdest path (mem_append_left _ hpath) peer hsource).ge

theorem Fresh.processNext (h : Fresh t) (rt : Bool) : Fresh (processNext cfg rt t) := by
  intro k dest' hdest' path hpath peer hsource
  rw [processNext_versionNum]
  obtain ⟨dest, hdest, ⟨-, hlists⟩ | ⟨-, rfl⟩⟩ := processNext_lookup hdest'
  · have hknown : dest'.knownPathList = dest.merged.knownPathList := congrArg Prod.fst hlists
    rw [newPathList_eq_nil hlists, append_nil, hknown] at hpath
    exact h k dest hdest path (mem_merged hpath) peer hsource
  · exact h k dest' hdest path hpath peer hsource

theorem Fresh.learnPath (h : Fresh t) {path : Path}
    (hpath : ∀ peer, path.source = some peer → path.sourceVersionNum = t.versionNum peer) :
    Fresh (learnPath cfg path t) := by
  intro k dest' hdest' p hp peer hsource
  simp only [Tables.learnPath, enqueue_eq, Tables.insert] at hdest' ⊢
  by_cases hk : k = cfg.tableKey path.nlri
  · subst hk
    rw [lookup_insert, Option.mem_some_iff] at hdest'
    subst hdest'
    have hold : p ∈ ((t.destinations.lookup (cfg.tableKey path.nlri)).getD {}).knownPathList ++
        ((t.destinations.lookup (cfg.tableKey path.nlri)).getD {}).newPathList ∨ p = path := by
      revert hp
      cases path.isWithdraw with
      | false => simp [addNewPath, or_assoc]
      | true =>
        simp [addWithdraw]
        grind
    rcases hold with hold | rfl
    · cases hdest : t.destinations.lookup (cfg.tableKey path.nlri) with
      | none => simp [hdest] at hold
      | some dest =>
        rw [hdest] at hold
        exact h _ dest hdest p hold peer hsource
    · exact hpath peer hsource
  · rw [lookup_insert_ne hk] at hdest'
    exact h k dest' hdest' p hp peer hsource

theorem Queued.learnPath (h : Queued cfg t) (path : Path) : Queued cfg (learnPath cfg path t) := by
  rw [Tables.learnPath, enqueue_eq]
  exact h.insert rfl (.inr (by rw [enqueue_eq]; rfl))

theorem Fresh.connectionLost {peer : Peer} (h : Fresh t) (hprotocol : t.protocol peer)
    (hpending : NoPending peer t) :
    Fresh (connectionLost cfg peer t) := by
  obtain ⟨hversion, -, hlookup⟩ := @connectionLost_spec _ _ _ cfg _ _ hprotocol
  intro k dest' hdest' path hpath peer' hsource
  rw [hlookup] at hdest'
  obtain ⟨dest, hdest, rfl⟩ := Option.mem_map.1 hdest'
  have hmem : path ∈ dest.knownPathList ++ dest.newPathList := by
    rw [mem_append] at hpath ⊢
    exact hpath.imp_left fun hknown => (mem_cleaned.1 hknown).1
  have hfresh := h k dest hdest path hmem peer' hsource
  rw [hversion]
  by_cases hp : peer' = peer
  · subst hp
    rcases mem_append.1 hpath with hknown | hnew
    · exact absurd ⟨hsource, by omega⟩ (mem_cleaned.1 hknown).2
    · exact absurd hsource (hpending k dest hdest path hnew)
  · rw [update_of_ne hp]
    exact hfresh

variable (cfg) in
/-- Each step keeps the invariant, the loss of a session if no path of the peer is pending. -/
theorem inv_step (hqueued : Queued cfg t) (hfresh : Fresh t) (event : Event)
    (hevent : ∀ peer, event = .connectionLost peer → t.protocol peer → NoPending peer t) :
    Queued cfg (step cfg t event) ∧ Fresh (step cfg t event) := by
  cases event with
  | connectionMade peer =>
    exact ⟨⟨hqueued.nodup, hqueued.isRtc, hqueued.present, hqueued.pending⟩, hfresh⟩
  | update peer path =>
    rw [step]
    split
    · refine ⟨hqueued.learnPath _, hfresh.learnPath ?_⟩
      rintro _ ⟨⟩
      rfl
    · exact ⟨hqueued, hfresh⟩
  | localPath path => exact ⟨hqueued.learnPath _, hfresh.learnPath (by simp)⟩
  | process rt => exact ⟨hqueued.processNext rt, hfresh.processNext rt⟩
  | connectionLost peer =>
    by_cases hprotocol : t.protocol peer
    · exact ⟨(connectionLost_spec hprotocol).2.1 hqueued,
        hfresh.connectionLost hprotocol (hevent peer rfl hprotocol)⟩
    · rw [step, connectionLost, if_neg hprotocol]
      exact ⟨hqueued, hfresh⟩

/-! ## Draining the queues -/

/-- A path that is pending, or known and not touched by further processing. -/
def Held (path : Path) (k : κ) (t : Tables κ τ) : Prop :=
  ∃ dest ∈ t.destinations.lookup k,
    path ∈ dest.newPathList ∨ path ∈ dest.knownPathList ∧ ∀ rt, k ∉ t.queue rt

theorem Held.processNext {path : Path} (h : Held path k t) (hqueued : Queued cfg t) (rt : Bool) :
    Held path k (processNext cfg rt t) := by
  obtain ⟨dest, hdest, hpath⟩ := h
  obtain ⟨peers, destinations, heq, hother, hhead⟩ := @processNext_eq _ _ _ cfg rt t
  by_cases hk : (t.queue rt).head? = some k
  · -- it is processed now, and new paths become known
    have hnew : path ∈ dest.newPathList := by
      refine hpath.resolve_right fun hknown => ?_
      exact hknown.2 rt (mem_of_mem_head? hk)
    have hmerged := mem_merged_of_new hnew
    rcases hhead k hk with ⟨-, hnil⟩ | ⟨dest₁, hdest₁, dest', hdest', hlists⟩
    · rw [hnil dest hdest] at hmerged
      cases hmerged
    · cases hdest.symm.trans hdest₁
      have hknown : dest'.knownPathList = dest.merged.knownPathList := congrArg Prod.fst hlists
      refine ⟨dest', ?_, .inr ⟨hknown ▸ hmerged, hqueued.head_not_mem hk⟩⟩
      rw [heq]
      exact hdest'
  · refine ⟨dest, ?_, hpath.imp_right fun hknown => ⟨hknown.1, fun rt' hmem =>
      hknown.2 rt' (mem_queue_of_processNext hmem)⟩⟩
    rw [heq]
    exact (hother k hk).trans hdest

/-- What each step of the processor keeps holds when all is processed. -/
theorem processAll_induction {P : Tables κ τ → Prop} (h : ∀ rt t, P t → P (processNext cfg rt t))
    (ht : P t) :
    P (processAll cfg t) := by
  have hiterate : ∀ rt n t, P t → P ((processNext cfg rt)^[n] t) := by
    intro rt n
    induction n with
    | zero => exact fun _ ht => ht
    | succ n ih => exact fun t ht => ih _ (h rt t ht)
  exact hiterate _ _ _ (hiterate _ _ _ ht)

theorem iterate_processNext_queue (rt rt' : Bool) (n : Nat) (t : Tables κ τ) :
    ((processNext cfg rt)^[n] t).queue rt' =
      if rt' = rt then (t.queue rt).drop n else t.queue rt' := by
  induction n generalizing t with
  | zero => by_cases h : rt' = rt <;> simp [h]
  | succ n ih =>
    rw [iterate_succ_apply, ih, processNext_queue, processNext_queue]
    by_cases h : rt' = rt <;> simp [h]

theorem processAll_queue (rt : Bool) (t : Tables κ τ) : (processAll cfg t).queue rt = [] := by
  rw [processAll, iterate_processNext_queue]
  cases rt with
  | true => simp [iterate_processNext_queue]
  | false => simp

@[simp] theorem processAll_versionNum (t : Tables κ τ) :
    (processAll cfg t).versionNum = t.versionNum :=
  processAll_induction (P := fun t' => t'.versionNum = t.versionNum)
    (fun rt t' h => (processNext_versionNum rt t').trans h) rfl

/-- A pending path of the peer outlives the loss of its session. -/
theorem not_noStale_of_pending {peer : Peer} (hqueued : Queued cfg t) (hfresh : Fresh t)
    (hprotocol : t.protocol peer) (hpending : ¬NoPending peer t) :
    ¬NoStale (processAll cfg (connectionLost cfg peer t)) := by
  intro hstale
  obtain ⟨hversion, hqueued', hlookup⟩ := @connectionLost_spec _ _ _ cfg _ _ hprotocol
  simp only [NoPending, not_forall, not_not] at hpending
  obtain ⟨k, dest, hdest, path, hnew, hsource⟩ := hpending
  have hheld : Held path k (connectionLost cfg peer t) :=
    ⟨_, (hlookup k).trans (congrArg _ hdest), .inl hnew⟩
  obtain ⟨⟨dest', hdest', hpath⟩, hqueuedAll⟩ :
      Held path k (processAll cfg (connectionLost cfg peer t)) ∧
        Queued cfg (processAll cfg (connectionLost cfg peer t)) :=
    processAll_induction (P := fun t => Held path k t ∧ Queued cfg t)
      (fun rt t h => ⟨h.1.processNext h.2 rt, h.2.processNext rt⟩) ⟨hheld, hqueued' hqueued⟩
  have hknown : path ∈ dest'.knownPathList := by
    refine (hpath.resolve_left fun hnew' => ?_).1
    have hmem := hqueuedAll.pending k dest' hdest' (ne_nil_of_mem hnew')
    rw [processAll_queue] at hmem
    cases hmem
  have hle := hstale k dest' hdest' path hknown peer hsource
  have hfresh := hfresh k dest hdest path (mem_append_right _ hnew) peer hsource
  rw [processAll_versionNum, hversion, update_self] at hle
  omega

variable (cfg) (peers : τ)

theorem run_concat (events : List Event) (event : Event) :
    run cfg peers (events ++ [event]) = step cfg (run cfg peers events) event := by
  rw [run, foldl_append]
  rfl

/-- In every run and after every event of it, processing all that is queued leaves no known path of
an older session, exactly if no session was lost while a path of its peer was pending. -/
theorem noStale_iff (events : List Event) :
    (∀ before event after, events = before ++ event :: after →
      NoStale (processAll cfg (run cfg peers (before ++ [event])))) ↔
    ∀ before peer after, events = before ++ .connectionLost peer :: after →
      (run cfg peers before).protocol peer → NoPending peer (run cfg peers before) := by
  have hlost : (∀ before peer after, events = before ++ .connectionLost peer :: after →
      (run cfg peers before).protocol peer → NoPending peer (run cfg peers before)) ↔
      History.Throughout (fun before event => ∀ peer, event = .connectionLost peer →
        (run cfg peers before).protocol peer → NoPending peer (run cfg peers before)) events := by
    constructor
    · rintro h before _ after heq peer rfl
      exact h before peer after heq
    · intro h before peer after heq
      exact h before _ after heq peer rfl
  rw [hlost]
  refine History.throughout_iff
    (fun before => Queued cfg (run cfg peers before) ∧ Fresh (run cfg peers before)) ?_ ?_ ?_ events
  · exact ⟨⟨by simp [run], by simp [run], by simp [run], by simp [run]⟩, by simp [run, Fresh]⟩
  · rintro before event ⟨hqueued, hfresh⟩
    rw [run_concat]
    constructor
    · rintro hstale peer rfl hprotocol
      by_contra hpending
      exact not_noStale_of_pending hqueued hfresh hprotocol hpending hstale
    · intro hevent
      exact (processAll_induction (fun rt _ h => h.processNext rt)
        (inv_step cfg hqueued hfresh event hevent).2).noStale
  · rintro before event ⟨hqueued, hfresh⟩ hevent
    rw [run_concat]
    exact inv_step cfg hqueued hfresh event hevent

/-- Routes are their own keys, and there is nobody to tell. -/
def noPeers : TableConfig Nlri Unit where
  localAsn := 65000
  tableKey := id
  isRtc _ := false
  commNewBestToBgpPeers _ := pure ()
  enqueOutgoingMsg _ _ s := s
  clearOutgoingMsgList _ s := s

/-- The session is lost before the announced path is processed. -/
theorem not_noStale_update_lost :
    ¬NoStale (run noPeers () [.connectionMade ⟨1, 65001, 1, 1⟩,
      .update ⟨1, 65001, 1, 1⟩ (externalPath 1 none 1), .connectionLost ⟨1, 65001, 1, 1⟩,
      .process false]) := by
  intro h
  have hknown : (run noPeers () [.connectionMade ⟨1, 65001, 1, 1⟩,
      .update ⟨1, 65001, 1, 1⟩ (externalPath 1 none 1), .connectionLost ⟨1, 65001, 1, 1⟩,
      .process false]).destinations.lookup (externalPath 1 none 1).nlri =
      some { knownPathList := [externalPath 1 none 1], bestPath := some (externalPath 1 none 1)
             bestPathReason := some .onlyPath } := by
    decide +kernel
  have hle := h _ _ hknown (externalPath 1 none 1) (by simp) ⟨1, 65001, 1, 1⟩ rfl
  exact absurd hle (by decide +kernel)

end Tables

end BebaCtrl.Bgp
