import BebaCtrl.Bgp.BestPath
import BebaCtrl.Lib.History
import BebaCtrl.Lib.Keyed
import BebaCtrl.Lib.State

/-!
# A destination and its paths

A destination collects announcements in `newPathList` and withdrawals in `withdrawList`, and
`process` merges both into the known paths. The lists do not say in which order the events of one
source came, and a withdrawal without a known path stays in its list.
-/

namespace BebaCtrl.Bgp

open List PyM

structure SentRoute where
  path : Path
  sentPeer : Peer
  deriving DecidableEq, Repr

structure Destination where
  knownPathList : List Path := []
  newPathList : List Path := []
  withdrawList : List Path := []
  bestPath : Option Path := none
  bestPathReason : Option BestPathReason := none
  /-- at most one for each peer -/
  sentRoutes : List SentRoute := []
  deriving DecidableEq, Repr

namespace Destination

def addNewPath (newPath : Path) (dest : Destination) : Destination :=
  { dest with newPathList := dest.newPathList ++ [newPath] }

def addWithdraw (withdraw : Path) (dest : Destination) : Destination :=
  { dest with withdrawList := dest.withdrawList ++ [withdraw] }

/-! ## Merging the lists -/

/-- The first path of the same source. -/
def findMatch (known : List Path) (path : Path) : Option Path :=
  known.find? fun p => p.source = path.source

def removeWithdrawals (dest : Destination) : Destination :=
  if dest.withdrawList = [] then dest
  else if dest.knownPathList = [] then { dest with withdrawList := [] }
  else
    -- `matches` is a set, gone through in some order; each withdrawal is an object of its own
    let matched := (dest.withdrawList.filterMap (findMatch dest.knownPathList)).dedup
    { dest with
      knownPathList := matched.foldl List.erase dest.knownPathList
      withdrawList := dest.withdrawList.filter fun withdraw =>
        (findMatch dest.knownPathList withdraw).isNone }

/-- Each new path takes the place of one known path of its source. -/
def removeOldPaths (known : List Path) : List Path → List Path
  | [] => known
  | newPath :: newPaths =>
    match findMatch known newPath with
    | some oldPath => removeOldPaths (known.erase oldPath) newPaths
    | none => removeOldPaths known newPaths

/-- The best of the known paths, if there are any. -/
def bestKnown (localAsn : Nat) (knownPaths : List Path) :
    PyResult (Option Path × BestPathReason) := do
  if knownPaths = [] then return (none, .unknown)
  let (currentBestPath, reason) ← computeBestKnownPath localAsn knownPaths
  return (some currentBestPath, reason)

/-- `_process_paths`, the best path and the reason for it. -/
def processPaths (localAsn : Nat) : PyM Destination (Option Path × BestPathReason) := do
  modify removeWithdrawals
  let dest ← get
  match dest.knownPathList, dest.newPathList with
  | [], [newPath] =>
    set { dest with knownPathList := [newPath], newPathList := [] }
    return (some newPath, .onlyPath)
  | knownPaths, newPaths =>
    let knownPaths := removeOldPaths knownPaths newPaths ++ newPaths
    set { dest with knownPathList := knownPaths, newPathList := [] }
    bestKnown localAsn knownPaths

/-- The known, new and withdrawn paths. -/
def pathLists (dest : Destination) : List Path × List Path × List Path :=
  (dest.knownPathList, dest.newPathList, dest.withdrawList)

def HasLists (lists : List Path × List Path × List Path) (dest : Destination) : Prop :=
  dest.pathLists = lists

end Destination

/-- What the class of a route family adds to a destination: how it tells the rest of the speaker,
with state `σ`, of its best path, and how it leaves its table. -/
structure PathProcessing (σ : Type) where
  bestPathLost : PyM (Destination × σ) Unit
  newBestPath : Path → PyM (Destination × σ) Unit
  removeDestFromTable : PyM (Destination × σ) Unit
  bestPathLost_keeps : ∀ lists, PyM.Keeps (fun s => s.1.HasLists lists) bestPathLost
  newBestPath_keeps : ∀ path lists,
    PyM.Keeps (fun s => s.1.HasLists lists) (newBestPath path)
  removeDestFromTable_keeps : ∀ lists,
    PyM.Keeps (fun s => s.1.HasLists lists) removeDestFromTable

namespace Destination

variable {σ : Type}

/-- `_process` -/
def processBest (methods : PathProcessing σ) (localAsn : Nat) : PyM (Destination × σ) Unit := do
  let (newBestPath, reason) ← (processPaths localAsn).onFst
  onFst (modify fun dest => { dest with bestPathReason := some reason })
  let dest ← onFst get
  if dest.bestPath = newBestPath then return
  match newBestPath with
  | none => do
    (pyAssert (dest.knownPathList = []) : PyResult Unit)
    methods.bestPathLost
  | some path => methods.newBestPath path

def process (methods : PathProcessing σ) (localAsn : Nat) : PyM (Destination × σ) Unit := do
  processBest methods localAsn
  let dest ← onFst get
  if dest.knownPathList = [] ∧ dest.bestPath = none then methods.removeDestFromTable

end Destination

/-! ## Global tables -/

def Path.clone (path : Path) (forWithdrawal : Bool) : Path :=
  { path with
    pathAttrMap := if forWithdrawal then {} else path.pathAttrMap
    isWithdraw := forWithdrawal }

/-- The rest of the speaker as a destination of a global table sees it. -/
structure PeerManager (σ : Type) where
  commNewBestToBgpPeers : Path → PyM σ Unit
  enqueOutgoingMsg : Peer → Path → σ → σ
  deleteDest : PyM σ Unit

/-! `NonVrfPathProcessingMixin` -/

namespace NonVrf

variable {σ : Type} (pm : PeerManager σ)

def sendWithdrawal (sentRoute : SentRoute) : PyM (Destination × σ) Unit :=
  onSnd (modify (pm.enqueOutgoingMsg sentRoute.sentPeer (sentRoute.path.clone true)))

def clearSentRoutes : PyM (Destination × σ) Unit :=
  onFst (modify fun dest => { dest with sentRoutes := [] })

def bestPathLost : PyM (Destination × σ) Unit := do
  onFst (modify fun dest => { dest with bestPath := none })
  let dest ← onFst get
  if dest.sentRoutes ≠ [] then do
    dest.sentRoutes.forM (sendWithdrawal pm)
    clearSentRoutes

/-- If the old best path was withdrawn, nothing counts as sent. -/
def clearIfWithdrawn (oldBestPath : Option Path) : PyM (Destination × σ) Unit := do
  let dest ← onFst get
  if (∃ path ∈ oldBestPath, path ∉ dest.knownPathList) ∧ dest.sentRoutes ≠ [] then
    clearSentRoutes

def withdrawAndClear (sentRoute : SentRoute) : PyM (Destination × σ) Unit := do
  sendWithdrawal pm sentRoute
  clearSentRoutes

def withdrawOldBestPath (oldBestPath : Option Path) : PyM (Destination × σ) Unit := do
  let dest ← onFst get
  if oldBestPath.isSome ∧ dest.sentRoutes ≠ [] then
    -- the routes are cleared in the loop, which goes through a copy
    dest.sentRoutes.forM (withdrawAndClear pm)

def newBestPath (path : Path) : PyM (Destination × σ) Unit := do
  let oldBestPath := (← onFst get).bestPath
  onFst (modify fun dest => { dest with bestPath := some path })
  clearIfWithdrawn oldBestPath
  onSnd (pm.commNewBestToBgpPeers path)
  withdrawOldBestPath pm oldBestPath

section Keeps

variable {pm} {P : Destination × σ → Prop}
  (hbest : ∀ best, PyM.Keeps P (onFst (modify fun dest => { dest with bestPath := best })))
  (hclear : PyM.Keeps P clearSentRoutes) (hsend : ∀ r, PyM.Keeps P (sendWithdrawal pm r))
include hbest hclear hsend

theorem keeps_bestPathLost : PyM.Keeps P (bestPathLost pm) := by
  refine .bind (hbest none) fun _ => .bind PyM.keeps_onFst_get fun dest => ?_
  split
  · exact .bind (.forM hsend) fun _ => hclear
  · exact .pure

theorem keeps_newBestPath {path : Path}
    (hcomm : PyM.Keeps P (onSnd (pm.commNewBestToBgpPeers path))) :
    PyM.Keeps P (newBestPath pm path) := by
  refine .bind PyM.keeps_onFst_get fun dest => .bind (hbest path) fun _ =>
    .bind ?_ fun _ => .bind hcomm fun _ => ?_
  · refine .bind PyM.keeps_onFst_get fun dest => ?_
    split
    · exact hclear
    · exact .pure
  · refine .bind PyM.keeps_onFst_get fun dest => ?_
    split
    · exact .forM fun r => .bind (hsend r) fun _ => hclear
    · exact .pure

end Keeps

/-- A destination of a global table. -/
def pathProcessing : PathProcessing σ where
  bestPathLost := bestPathLost pm
  newBestPath := newBestPath pm
  removeDestFromTable := onSnd pm.deleteDest
  bestPathLost_keeps _ := keeps_bestPathLost (fun _ => .onFst (.modify fun _ h => h))
    (.onFst (.modify fun _ h => h)) fun _ => .onSnd _
  newBestPath_keeps _ _ := keeps_newBestPath (fun _ => .onFst (.modify fun _ h => h))
    (.onFst (.modify fun _ h => h)) (fun _ => .onSnd _) (.onSnd _)
  removeDestFromTable_keeps := fun _ => .onSnd _

end NonVrf

variable {dest : Destination} {path : Path}

namespace Destination

variable {σ : Type}

/-! ## What processing leaves -/

/-- The lists after the processing of a destination. -/
def merged (dest : Destination) : Destination :=
  let dest := removeWithdrawals dest
  { dest with
    knownPathList := removeOldPaths dest.knownPathList dest.newPathList ++ dest.newPathList
    newPathList := [] }

/-- A single new path goes the same way as the others. -/
theorem processPaths_eq (localAsn : Nat) (dest : Destination) :
    processPaths localAsn dest = (bestKnown localAsn (merged dest).knownPathList, merged dest) := by
  unfold processPaths merged
  refine (bind_of_ok (show (modify removeWithdrawals : PyM Destination Unit) dest =
    (.ok (), removeWithdrawals dest) from rfl) _).trans ?_
  generalize removeWithdrawals dest = d
  obtain ⟨known, newPaths, -, -, -, -⟩ := d
  cases known with
  | cons => rfl
  | nil =>
    rcases newPaths with _ | ⟨newPath, _ | ⟨_, _⟩⟩
    all_goals rfl

section

variable (methods : PathProcessing σ) (localAsn : Nat) (dest : Destination)

theorem triple_processBest :
    PyM.Triple (fun s : Destination × σ => s.1 = dest) (processBest methods localAsn)
      (fun _ s => s.1.HasLists (merged dest).pathLists)
      fun s => s.1.HasLists (merged dest).pathLists := by
  have hpaths : PyM.Triple (fun d => d = dest) (processPaths localAsn)
      (fun _ => HasLists (merged dest).pathLists) (HasLists (merged dest).pathLists) := by
    intro d hd
    rw [hd, processPaths_eq]
    cases bestKnown localAsn (merged dest).knownPathList <;> exact rfl
  refine hpaths.onFst.bind fun r => PyM.Keeps.bind (.onFst (.modify fun _ h => h)) fun _ =>
    PyM.Keeps.bind (.onFst .get) fun d => ?_
  split
  · exact .pure
  · cases r.1 with
    | none => exact PyM.Keeps.bind .lift fun _ => methods.bestPathLost_keeps _
    | some path => exact methods.newBestPath_keeps path _

theorem process_pathLists (s : σ) :
    (process methods localAsn (dest, s)).2.1.pathLists = (merged dest).pathLists := by
  refine PyM.Triple.final ((triple_processBest methods localAsn dest).bind fun _ =>
    PyM.Keeps.bind (.onFst .get) fun d => ?_) rfl
  split
  · exact methods.removeDestFromTable_keeps _
  · exact .pure

end

theorem removeOldPaths_eq (known newPaths : List Path) :
    removeOldPaths known newPaths = Keyed.removeOld Path.source known newPaths := by
  induction newPaths generalizing known with
  | nil => rfl
  | cons p newPaths ih =>
    have hmatch : Keyed.findMatch Path.source known p = findMatch known p := rfl
    rw [removeOldPaths, Keyed.removeOld, hmatch]
    cases findMatch known p <;> exact ih _

theorem mem_removeOldPaths {known newPaths : List Path} (h : path ∈ removeOldPaths known newPaths) :
    path ∈ known :=
  Keyed.mem_of_mem_removeOld (removeOldPaths_eq known newPaths ▸ h)

theorem mem_foldl_erase {paths known : List Path} (h : path ∈ paths.foldl List.erase known) :
    path ∈ known := by
  induction paths generalizing known with
  | nil => exact h
  | cons p paths ih => exact mem_of_mem_erase (ih h)

theorem removeWithdrawals_newPathList (dest : Destination) :
    (removeWithdrawals dest).newPathList = dest.newPathList := by
  unfold removeWithdrawals
  grind

/-- A path is known after processing only if it was known before or new. -/
theorem mem_merged (h : path ∈ (merged dest).knownPathList) :
    path ∈ dest.knownPathList ++ dest.newPathList := by
  have hknown : ∀ p ∈ (removeWithdrawals dest).knownPathList, p ∈ dest.knownPathList := by
    intro p hp
    unfold removeWithdrawals at hp
    split at hp
    · exact hp
    · split at hp
      · exact hp
      · exact mem_foldl_erase hp
  simp only [merged, removeWithdrawals_newPathList, mem_append] at h
  rw [mem_append]
  exact h.imp (fun h => hknown path (mem_removeOldPaths h)) id

/-- New paths become known. -/
theorem mem_merged_of_new (h : path ∈ dest.newPathList) : path ∈ (merged dest).knownPathList := by
  simp only [merged, removeWithdrawals_newPathList, mem_append]
  exact .inr h

end Destination

/-! ## What processing tells the speaker -/

namespace NonVrf

variable {σ : Type} (pm : PeerManager σ)

def withdrawFrom (s : σ) (sentRoute : SentRoute) : σ :=
  pm.enqueOutgoingMsg sentRoute.sentPeer (sentRoute.path.clone true) s

theorem forM_sendWithdrawal (routes : List SentRoute) (dest : Destination) (s : σ) :
    routes.forM (sendWithdrawal pm) (dest, s) =
      (.ok (), dest, routes.foldl (withdrawFrom pm) s) := by
  induction routes generalizing s with
  | nil => rfl
  | cons route routes ih => exact ih _

theorem forM_withdrawAndClear {routes : List SentRoute} (hne : routes ≠ [])
    (dest : Destination) (s : σ) :
    routes.forM (withdrawAndClear pm) (dest, s) =
      (.ok (), { dest with sentRoutes := [] }, routes.foldl (withdrawFrom pm) s) := by
  induction routes generalizing dest s with
  | nil => exact absurd rfl hne
  | cons route routes ih =>
    cases routes with
    | nil => rfl
    | cons route' routes => exact ih (by simp) _ _

theorem bestPathLost_eq (dest : Destination) (s : σ) :
    bestPathLost pm (dest, s) = (.ok (), { dest with bestPath := none, sentRoutes := [] },
      dest.sentRoutes.foldl (withdrawFrom pm) s) := by
  simp only [bestPathLost, bind_apply, onFst_apply, modify_apply, get_apply]
  by_cases hne : dest.sentRoutes = []
  · simp [hne, pure_apply]
  · simp only [ne_eq, hne, not_false_eq_true, if_true, bind_apply, forM_sendWithdrawal]
    rfl

/-- The sent routes that still count when there is a new best path. -/
def keptRoutes (dest : Destination) : List SentRoute :=
  if ∃ path ∈ dest.bestPath, path ∉ dest.knownPathList then [] else dest.sentRoutes

theorem clearIfWithdrawn_eq (dest : Destination) (path : Path) (s : σ) :
    clearIfWithdrawn dest.bestPath ({ dest with bestPath := some path }, s) =
      (.ok (), { dest with bestPath := some path, sentRoutes := keptRoutes dest }, s) := by
  simp only [clearIfWithdrawn, bind_apply, onFst_apply, get_apply, keptRoutes]
  by_cases hold : ∃ p ∈ dest.bestPath, p ∉ dest.knownPathList
  · by_cases hne : dest.sentRoutes = []
    · simp [hne, pure_apply]
    · rw [if_pos ⟨hold, hne⟩, if_pos hold]
      rfl
  · rw [if_neg fun h => hold h.1, if_neg hold]
    rfl

theorem withdrawOldBestPath_eq (oldBestPath : Option Path) (dest : Destination) (s : σ) :
    withdrawOldBestPath pm oldBestPath (dest, s) = (.ok (),
      if oldBestPath.isSome then
        ({ dest with sentRoutes := [] }, dest.sentRoutes.foldl (withdrawFrom pm) s)
      else (dest, s)) := by
  simp only [withdrawOldBestPath, bind_apply, onFst_apply, get_apply]
  by_cases hold : oldBestPath.isSome
  · by_cases hne : dest.sentRoutes = []
    · simp [hold, hne, pure_apply]
      rw [← hne]
    · rw [if_pos ⟨hold, hne⟩, if_pos hold, forM_withdrawAndClear pm hne]
  · rw [if_neg fun h => hold h.1, if_neg hold]
    rfl

/-- The new best path goes to the peers before the old one is withdrawn. -/
theorem newBestPath_eq (path : Path) (dest : Destination) (s : σ) :
    newBestPath pm path (dest, s) =
      match pm.commNewBestToBgpPeers path s with
      | (.error e, s') =>
        (.error e, { dest with bestPath := some path, sentRoutes := keptRoutes dest }, s')
      | (.ok _, s') => (.ok (),
        if dest.bestPath.isSome then
          ({ dest with bestPath := some path, sentRoutes := [] },
            (keptRoutes dest).foldl (withdrawFrom pm) s')
        else ({ dest with bestPath := some path, sentRoutes := keptRoutes dest }, s')) := by
  simp only [newBestPath, bind_apply, onFst_apply, modify_apply, get_apply,
    clearIfWithdrawn_eq, onSnd_apply]
  cases pm.commNewBestToBgpPeers path s with
  | mk r s' =>
    cases r with
    | error e => rfl
    | ok u => exact withdrawOldBestPath_eq pm _ _ _

end NonVrf

namespace Destination

variable {σ : Type}

theorem bestKnown_none {localAsn : Nat} {known : List Path} {reason : BestPathReason}
    (h : bestKnown localAsn known = .ok (none, reason)) : known = [] := by
  by_contra hne
  rw [bestKnown, if_neg hne] at h
  obtain ⟨best, -, h⟩ := BebaCtrl.bind_eq_ok.1 h
  cases h

theorem bestKnown_mem {localAsn : Nat} {known : List Path} {reason : BestPathReason}
    (h : bestKnown localAsn known = .ok (some path, reason)) : path ∈ known := by
  rw [bestKnown] at h
  split at h
  · cases h
  · obtain ⟨best, hbest, h⟩ := BebaCtrl.bind_eq_ok.1 h
    cases h
    exact computeBestKnownPath_mem hbest

theorem merged_bestPath (dest : Destination) : (merged dest).bestPath = dest.bestPath := by
  unfold merged removeWithdrawals
  grind

theorem merged_sentRoutes (dest : Destination) : (merged dest).sentRoutes = dest.sentRoutes := by
  unfold merged removeWithdrawals
  grind

/-- What `_process` does, by the best of the merged paths. -/
theorem processBest_eq (methods : PathProcessing σ) (localAsn : Nat) (dest : Destination) (s : σ) :
    processBest methods localAsn (dest, s) =
      match bestKnown localAsn (merged dest).knownPathList with
      | .error e => (.error e, merged dest, s)
      | .ok (best, reason) =>
        let dest' := { merged dest with bestPathReason := some reason }
        if dest.bestPath = best then (.ok (), dest', s)
        else
          match best with
          | none => methods.bestPathLost (dest', s)
          | some path => methods.newBestPath path (dest', s) := by
  simp only [processBest, bind_apply, onFst_apply, processPaths_eq]
  cases h : bestKnown localAsn (merged dest).knownPathList with
  | error e => rfl
  | ok r =>
    obtain ⟨best, reason⟩ := r
    simp only [onFst_apply, modify_apply, get_apply, merged_bestPath]
    by_cases hsame : dest.bestPath = best
    · simp only [hsame, if_true]
      rfl
    · simp only [hsame, if_false]
      cases best with
      | none => simp only [bestKnown_none h, pyAssert_pos, bind_apply, lift_apply]
      | some path => rfl

open NonVrf in
/-- What telling the speaker of a best path keeps. -/
theorem processBest_keeps {T : σ → Prop} (pm : PeerManager σ)
    (henque : ∀ peer path s, T s → T (pm.enqueOutgoingMsg peer path s))
    (hcomm : ∀ path s, T s → T (pm.commNewBestToBgpPeers path s).2) (localAsn : Nat)
    (dest : Destination) {s : σ} (h : T s) :
    T (processBest (pathProcessing pm) localAsn (dest, s)).2.2 := by
  have hfold : ∀ (routes : List SentRoute) s, T s → T (routes.foldl (withdrawFrom pm) s) := by
    intro routes s hs
    exact foldlRecOn routes _ hs fun s hs _ _ => henque _ _ s hs
  rw [processBest_eq]
  split
  · exact h
  next best reason _ =>
    dsimp only
    split_ifs
    · exact h
    cases best with
    | none =>
      simp only [pathProcessing, bestPathLost_eq]
      exact hfold _ _ h
    | some path =>
      have htold := hcomm path s h
      simp only [pathProcessing, newBestPath_eq]
      cases hc : pm.commNewBestToBgpPeers path s with
      | mk r s' =>
        rw [hc] at htold
        cases r with
        | error e => exact htold
        | ok u =>
          dsimp only
          split_ifs
          · exact hfold _ _ htold
          · exact htold

theorem process_apply (methods : PathProcessing σ) (localAsn : Nat) (s : Destination × σ) :
    process methods localAsn s =
      match processBest methods localAsn s with
      | (.error e, s') => (.error e, s')
      | (.ok _, s') =>
        if s'.1.knownPathList = [] ∧ s'.1.bestPath = none then methods.removeDestFromTable s'
        else (.ok (), s') := by
  rw [process, bind_apply]
  cases processBest methods localAsn s with
  | mk r s' =>
    cases r with
    | error e => rfl
    | ok u =>
      obtain ⟨dest, t⟩ := s'
      simp only [bind_apply, onFst_apply, get_apply]
      split <;> rfl

/-! ## The paths of one source -/

def ofSource (source : Option Peer) (paths : List Path) : List Path :=
  paths.filter fun path => path.source = source

variable {source : Option Peer}

theorem mem_ofSource {paths : List Path} :
    path ∈ ofSource source paths ↔ path ∈ paths ∧ path.source = source := Keyed.mem_ofKey

theorem ofSource_append (source : Option Peer) (paths paths' : List Path) :
    ofSource source (paths ++ paths') = ofSource source paths ++ ofSource source paths' :=
  Keyed.ofKey_append ..

theorem ofSource_concat_of_eq (h : path.source = source) (paths : List Path) :
    ofSource source (paths ++ [path]) = ofSource source paths ++ [path] :=
  Keyed.ofKey_concat_of_eq h paths

theorem ofSource_concat_of_ne (h : path.source ≠ source) (paths : List Path) :
    ofSource source (paths ++ [path]) = ofSource source paths :=
  Keyed.ofKey_concat_of_ne h paths

theorem findMatch_eq (known : List Path) (path : Path) :
    findMatch known path = (ofSource path.source known).head? := Keyed.findMatch_eq known path

section

variable (source : Option Peer)

theorem ofSource_foldl_erase (paths known : List Path) :
    ofSource source (paths.foldl List.erase known) =
      (ofSource source paths).foldl List.erase (ofSource source known) :=
  Keyed.ofKey_foldl_erase source paths known

theorem ofSource_removeOldPaths (known newPaths : List Path) :
    ofSource source (removeOldPaths known newPaths) =
      (ofSource source known).drop (ofSource source newPaths).length := by
  rw [removeOldPaths_eq]
  exact Keyed.ofKey_removeOld source known newPaths

theorem ofSource_removeWithdrawals (dest : Destination) :
    ofSource source (removeWithdrawals dest).knownPathList =
      if ofSource source dest.withdrawList = [] then ofSource source dest.knownPathList
      else (ofSource source dest.knownPathList).tail := by
  unfold removeWithdrawals
  by_cases hw : dest.withdrawList = []
  · simp [hw, ofSource]
  by_cases hk : dest.knownPathList = []
  · simp [hw, hk, ofSource]
  rw [if_neg hw, if_neg hk]
  simp only [ofSource_foldl_erase]
  have hmem : ∀ p, p ∈ ofSource source
      (dest.withdrawList.filterMap (findMatch dest.knownPathList)).dedup ↔
      ofSource source dest.withdrawList ≠ [] ∧
        (ofSource source dest.knownPathList).head? = some p := by
    intro p
    simp only [mem_ofSource, mem_dedup, mem_filterMap, findMatch_eq]
    constructor
    · rintro ⟨⟨w, hw, hp⟩, rfl⟩
      have hsource := (mem_ofSource.1 (mem_of_head? hp)).2
      rw [hsource]
      exact ⟨ne_nil_of_mem (mem_ofSource.2 ⟨hw, rfl⟩), hp⟩
    · rintro ⟨hne, hp⟩
      obtain ⟨w, hw'⟩ := exists_mem_of_ne_nil _ hne
      obtain ⟨hwmem, rfl⟩ := mem_ofSource.1 hw'
      exact ⟨⟨w, hwmem, hp⟩, (mem_ofSource.1 (mem_of_head? hp)).2⟩
  have hnodup : (ofSource source
      (dest.withdrawList.filterMap (findMatch dest.knownPathList)).dedup).Nodup :=
    (nodup_dedup _).filter _
  generalize ofSource source (dedup _) = matched at hmem hnodup ⊢
  by_cases hs : ofSource source dest.withdrawList = []
  · have hnil : matched = [] := eq_nil_iff_forall_not_mem.2 fun p hp => ((hmem p).1 hp).1 hs
    simp [hnil, hs]
  · rw [if_neg hs]
    cases hhead : ofSource source dest.knownPathList with
    | nil =>
      have hnil : matched = [] := eq_nil_iff_forall_not_mem.2 fun p hp => by
        simp [hmem, hhead] at hp
      simp [hnil]
    | cons p rest =>
      have hsingle : matched = [p] := perm_singleton.1
        ((perm_ext_iff_of_nodup hnodup (nodup_singleton p)).2 fun q => by
          simp [hmem, hs, hhead, eq_comm])
      simp [hsingle]

theorem ofSource_merged (dest : Destination) (h : (ofSource source dest.knownPathList).length ≤ 1) :
    ofSource source (merged dest).knownPathList =
      if ofSource source dest.newPathList ≠ [] then ofSource source dest.newPathList
      else if ofSource source dest.withdrawList ≠ [] then []
      else ofSource source dest.knownPathList := by
  have hlen : (if ofSource source dest.withdrawList = [] then ofSource source dest.knownPathList
      else (ofSource source dest.knownPathList).tail).length ≤ 1 := by
    split
    · exact h
    · rw [length_tail]
      omega
  simp only [merged]
  rw [removeWithdrawals_newPathList, ofSource_append, ofSource_removeOldPaths,
    ofSource_removeWithdrawals]
  by_cases hn : ofSource source dest.newPathList = []
  · by_cases hw : ofSource source dest.withdrawList = []
    · simp [hn, hw]
    · have htail : (ofSource source dest.knownPathList).tail = [] :=
        eq_nil_of_length_eq_zero (by rw [length_tail]; omega)
      simp [hn, hw, htail]
  · rw [if_pos hn, drop_eq_nil_of_le (hlen.trans (length_pos_iff.2 hn)), nil_append]

end

/-! ## Runs -/

inductive Event where
  | announce (path : Path)
  | withdraw (path : Path)
  | process
  deriving DecidableEq, Repr

def step (methods : PathProcessing σ) (localAsn : Nat) (s : Destination × σ) :
    Event → Destination × σ
  | .announce path => (addNewPath path s.1, s.2)
  | .withdraw path => (addWithdraw path s.1, s.2)
  | .process => (process methods localAsn s).2

/-- A run from the creation of the destination. -/
def run (methods : PathProcessing σ) (localAsn : Nat) (s : σ) (events : List Event) :
    Destination × σ :=
  events.foldl (step methods localAsn) ({}, s)

/-- The last event of a source, if that is an announcement. -/
def announced (source : Option Peer) (events : List Event) : Option Path :=
  events.foldl (fun last event =>
    match event with
    | .announce path => if path.source = source then some path else last
    | .withdraw path => if path.source = source then none else last
    | .process => last) none

/-- The known paths are the last announcements. -/
def Exact (events : List Event) (dest : Destination) : Prop :=
  ∀ source, ofSource source dest.knownPathList = (announced source events).toList

/-- Each source has no new path, and a withdrawal only if that is its last event; or it has one new
path, which is its last event. -/
def Orderly (events : List Event) (dest : Destination) : Prop :=
  ∀ source,
    (ofSource source dest.newPathList = [] ∧
      (announced source events = none ∨ ofSource source dest.withdrawList = [])) ∨
    ∃ path, ofSource source dest.newPathList = [path] ∧ announced source events = some path

/-- A source without new paths has its last announcement among the known paths, or else no known
path that is not withdrawn. -/
def Settled (events : List Event) (dest : Destination) : Prop :=
  ∀ source, (ofSource source dest.knownPathList).length ≤ 1 ∧
    (ofSource source dest.newPathList = [] →
      match announced source events with
      | some path => ofSource source dest.knownPathList = [path]
      | none => ofSource source dest.knownPathList = [] ∨ ofSource source dest.withdrawList ≠ [])

variable {events : List Event}

theorem exact_merged_iff (h : Settled events dest) :
    Exact events (merged dest) ↔ Orderly events dest := by
  refine forall_congr' fun source => ?_
  obtain ⟨hlen, hsettled⟩ := h source
  rw [ofSource_merged source dest hlen]
  by_cases hn : ofSource source dest.newPathList = []
  · have hknown := hsettled hn
    cases hann : announced source events with
    | none =>
      rw [hann] at hknown
      rcases hknown with hk | hw
      · simp [hn, hk]
      · simp [hn, hw]
    | some path =>
      rw [hann] at hknown
      by_cases hw : ofSource source dest.withdrawList = []
      · simp [hn, hw, hknown]
      · simp [hn, hw]
  · cases announced source events <;> simp [hn]

variable (methods : PathProcessing σ) (localAsn : Nat) (s : σ)

theorem run_concat (events : List Event) (event : Event) :
    run methods localAsn s (events ++ [event]) =
      step methods localAsn (run methods localAsn s events) event := by
  rw [run, foldl_append]
  rfl

theorem announced_concat (source : Option Peer) (events : List Event) (event : Event) :
    announced source (events ++ [event]) =
      match event with
      | .announce path => if path.source = source then some path else announced source events
      | .withdraw path => if path.source = source then none else announced source events
      | .process => announced source events := by
  rw [announced, foldl_append]
  rfl

theorem run_process_pathLists (events : List Event) :
    (run methods localAsn s (events ++ [.process])).1.pathLists =
      (merged (run methods localAsn s events).1).pathLists := by
  rw [run_concat]
  exact process_pathLists methods localAsn _ _

theorem exact_run_process_iff (h : Settled events (run methods localAsn s events).1) :
    Exact events (run methods localAsn s (events ++ [.process])).1 ↔
      Orderly events (run methods localAsn s events).1 := by
  rw [← exact_merged_iff h]
  have hlists := run_process_pathLists methods localAsn s events
  have hknown : (run methods localAsn s (events ++ [.process])).1.knownPathList =
      (merged (run methods localAsn s events).1).knownPathList := congrArg Prod.fst hlists
  unfold Exact
  rw [hknown]

theorem settled_step {event : Event} (h : Settled events (run methods localAsn s events).1)
    (hevent : event = .process → Orderly events (run methods localAsn s events).1) :
    Settled (events ++ [event]) (run methods localAsn s (events ++ [event])).1 := by
  intro source
  obtain ⟨hlen, hsettled⟩ := h source
  rw [announced_concat]
  cases event with
  | announce path =>
    rw [run_concat]
    refine ⟨hlen, ?_⟩
    by_cases hp : path.source = source
    · intro hnew
      simp [step, addNewPath, ofSource_concat_of_eq hp] at hnew
    · simpa [step, addNewPath, ofSource_concat_of_ne hp, hp] using hsettled
  | withdraw path =>
    rw [run_concat]
    refine ⟨hlen, ?_⟩
    by_cases hp : path.source = source
    · simp [step, addWithdraw, ofSource_concat_of_eq hp, hp]
    · simpa [step, addWithdraw, ofSource_concat_of_ne hp, hp] using hsettled
  | process =>
    have hexact := (exact_run_process_iff methods localAsn s h).2 (hevent rfl) source
    rw [hexact]
    cases announced source events <;> simp

/-- After every call of `process` the known paths are the last announcements, exactly in the runs
in which it is only called on an orderly destination. -/
theorem exact_iff_orderly (events : List Event) :
    (∀ before after, events = before ++ .process :: after →
      Exact before (run methods localAsn s (before ++ [.process])).1) ↔
    ∀ before after, events = before ++ .process :: after →
      Orderly before (run methods localAsn s before).1 := by
  rw [← History.throughout_event_iff, ← History.throughout_event_iff]
  refine History.throughout_iff (fun before => Settled before (run methods localAsn s before).1)
    ?_ ?_ ?_ events
  · intro source
    simp [run, ofSource, announced]
  · intro before event h
    exact forall_congr' fun _ => exact_run_process_iff methods localAsn s h
  · intro before event h hevent
    exact settled_step methods localAsn s h hevent

/-- A speaker without peers to tell. -/
def noPeers : PeerManager Unit where
  commNewBestToBgpPeers := fun _ => pure ()
  enqueOutgoingMsg := fun _ _ s => s
  deleteDest := pure ()

/-- An announcement and its withdrawal before the next call of `process` leave the path known. -/
theorem not_exact_announce_withdraw :
    ¬Exact [.announce (externalPath 1 none 1), .withdraw ((externalPath 1 none 1).clone true)]
      (run (NonVrf.pathProcessing noPeers) 65000 () [.announce (externalPath 1 none 1),
        .withdraw ((externalPath 1 none 1).clone true), .process]).1 := by
  intro h
  have hknown : ofSource (externalPath 1 none 1).source
      (run (NonVrf.pathProcessing noPeers) 65000 () [.announce (externalPath 1 none 1),
        .withdraw ((externalPath 1 none 1).clone true), .process]).1.knownPathList =
      [externalPath 1 none 1] := by decide +kernel
  rw [h] at hknown
  exact absurd hknown (by decide +kernel)

end Destination

end BebaCtrl.Bgp
