import BebaCtrl.Lib.Index

/-!
# The VRF tables that import a route target

`_tables_for_rt` tells, for a route target and a family, the VRF tables into which routes with this
target are imported. It is kept up when VRFs are created and removed and when their import route
targets change, each time from the difference.

A VRF that exists already cannot be created, and one that does not exist cannot be changed or
removed: the configuration refuses that before the tables are reached. Import maps are left out.
-/

namespace BebaCtrl.Bgp.TablesForRt

open List Function Dict

abbrev Text : Type := List Char

inductive VrfRf where
  | ipv4
  | ipv6
  deriving DecidableEq, Repr

def afi : VrfRf → Char
  | .ipv4 => '1'
  | .ipv6 => '2'

/-- `str(vrf_table.route_family)` -/
def familyText (routeFamily : VrfRf) : Text :=
  "RouteFamily(afi=".toList ++ afi routeFamily :: ",safi=1)".toList

def rtRfId (routeFamily : VrfRf) (rt : Text) : Text := rt ++ ':' :: familyText routeFamily

/-- A VRF is named by its route distinguisher and its family. Tables are objects, which have
numbers; the import route targets are those of the configuration of the table. -/
structure State where
  tables : Dict (Text × VrfRf) Nat := ∅
  importRts : Nat → List Text := fun _ => []
  tablesForRt : Dict Text (Finset Nat) := ∅
  next : Nat := 0

abbrev Vrf : Type := Text × VrfRf

def linkVrfTable (vrfTable : Nat) (routeFamily : VrfRf) (rtList : List Text) (s : State) : State :=
  { s with tablesForRt := Index.linkAll (rtRfId routeFamily) vrfTable rtList s.tablesForRt }

def removeLinksToVrfTableForRts (vrfTable : Nat) (routeFamily : VrfRf) (rts : List Text)
    (s : State) : PyResult State := do
  let tablesForRt ← Index.unlinkAll (rtRfId routeFamily) vrfTable rts s.tablesForRt
  return { s with tablesForRt }

def createAndLinkVrfTable (vrf : Vrf) (importRts : List Text) (s : State) : State :=
  let vrfTable := s.next
  let s := { s with
    tables := s.tables.insert vrf vrfTable
    importRts := Function.update s.importRts vrfTable importRts
    next := s.next + 1 }
  if importRts ≠ [] then linkVrfTable vrfTable vrf.2 importRts s else s

def updateVrfTableLinks (vrfTable : Nat) (routeFamily : VrfRf) (newImpRts removedImpRts : List Text)
    (s : State) : PyResult State :=
  let s := if newImpRts ≠ [] then linkVrfTable vrfTable routeFamily newImpRts s else s
  if removedImpRts ≠ [] then removeLinksToVrfTableForRts vrfTable routeFamily removedImpRts s
  else .ok s

/-- `VrfConf._update_import_rts` and the handler of the change. -/
def updateImportRts (vrf : Vrf) (vrfTable : Nat) (importRts : List Text) (s : State) :
    PyResult State :=
  let currImportRts := s.importRts vrfTable
  let newImportRts := importRts.filter (· ∉ currImportRts)
  let oldImportRts := currImportRts.filter (· ∉ importRts)
  updateVrfTableLinks vrfTable vrf.2 newImportRts oldImportRts
    { s with importRts := Function.update s.importRts vrfTable importRts }

def removeVrfByVrfConf (vrf : Vrf) (s : State) : PyResult State := do
  let vrfTable ← s.tables.getItem vrf
  removeLinksToVrfTableForRts vrfTable vrf.2 (s.importRts vrfTable)
    { s with tables := s.tables.erase vrf }

inductive Event where
  | create (vrf : Vrf) (importRts : List Text)
  | update (vrf : Vrf) (importRts : List Text)
  | remove (vrf : Vrf)
  deriving DecidableEq, Repr

def Event.vrf : Event → Vrf
  | .create vrf _ | .update vrf _ | .remove vrf => vrf

def step (s : State) : Event → PyResult State
  | .create vrf importRts =>
    if vrf ∈ s.tables then .ok s else .ok (createAndLinkVrfTable vrf importRts s)
  | .update vrf importRts =>
    match s.tables.lookup vrf with
    | none => .ok s
    | some vrfTable => updateImportRts vrf vrfTable importRts s
  | .remove vrf => if vrf ∈ s.tables then removeVrfByVrfConf vrf s else .ok s

def run (events : List Event) : PyResult State := events.foldlM step {}

/-! ## The index -/

/-- The import route targets of a VRF, if it has a table. -/
def State.rtsOf (s : State) (vrf : Vrf) : Option (List Text) :=
  (s.tables.lookup vrf).map s.importRts

/-- What an event makes of the import route targets that are configured for a VRF. -/
def configure (vrf : Vrf) (rts : Option (List Text)) : Event → Option (List Text)
  | .create vrf' importRts => if vrf' = vrf then rts.or importRts else rts
  | .update vrf' importRts => if vrf' = vrf then rts.map fun _ => importRts else rts
  | .remove vrf' => if vrf' = vrf then none else rts

def configured (events : List Event) (vrf : Vrf) : Option (List Text) :=
  events.foldl (configure vrf) none

/-- The table is that of a VRF that exists, has the family and imports the target. -/
def Imports (s : State) (id : Text) (vrfTable : Nat) : Prop :=
  ∃ vrf, s.tables.lookup vrf = some vrfTable ∧ ∃ rt ∈ s.importRts vrfTable, rtRfId vrf.2 rt = id

/-- The entries are the sets of the tables that import, and those that would be empty are not there.
-/
def Indexed (s : State) : Prop :=
  ∀ id, match s.tablesForRt.lookup id with
    | some vrfTables =>
        vrfTables.Nonempty ∧ ∀ vrfTable, vrfTable ∈ vrfTables ↔ Imports s id vrfTable
    | none => ∀ vrfTable, ¬Imports s id vrfTable

theorem rtRfId_inj {rf rf' : VrfRf} {rt rt' : Text} (h : rtRfId rf rt = rtRfId rf' rt') :
    rf = rf' ∧ rt = rt' := by
  unfold rtRfId familyText at h
  obtain ⟨hrt, hrf⟩ := append_inj' h (by simp only [length_cons, length_append])
  refine ⟨?_, hrt⟩
  have hafi : afi rf = afi rf' := (cons.inj (append_cancel_left (cons.inj hrf).2)).1
  cases rf <;> cases rf' <;> first | rfl | exact absurd hafi (by decide)

/-- The tables of different VRFs are different objects, which were all created before, and the index
is right. -/
structure Ok (s : State) : Prop where
  inj : ∀ vrf vrf' t, s.tables.lookup vrf = some t → s.tables.lookup vrf' = some t → vrf = vrf'
  lt_next : ∀ vrf t, s.tables.lookup vrf = some t → t < s.next
  tidy : Index.Tidy s.tablesForRt
  mem_iff : ∀ id t, t ∈ Index.members s.tablesForRt id ↔ Imports s id t

variable {s s' : State} {vrf : Vrf} {t : Nat}

theorem Ok.indexed (h : Ok s) : Indexed s := by
  intro id
  have hmem := h.mem_iff id
  cases hid : s.tablesForRt.lookup id with
  | none =>
    intro t ht
    rw [← hmem, Index.members, hid] at ht
    exact absurd ht (Finset.notMem_empty t)
  | some vrfTables =>
    refine ⟨h.tidy id vrfTables hid, fun t => ?_⟩
    rw [← hmem, Index.members, hid]
    rfl

theorem ok_init : Ok {} := by
  refine ⟨by simp, by simp, Index.tidy_empty, fun id t => ?_⟩
  simp [Imports, Index.members]

/-- The table of the VRF imports exactly what its import targets say. -/
theorem imports_iff_of_lookup (h : Ok s) (ht : s.tables.lookup vrf = some t) (id : Text) :
    Imports s id t ↔ ∃ rt ∈ s.importRts t, rtRfId vrf.2 rt = id := by
  constructor
  · rintro ⟨vrf', ht', hrt⟩
    rwa [h.inj vrf' vrf t ht' ht] at hrt
  · exact fun hrt => ⟨vrf, ht, hrt⟩

/-- With no import targets there is nothing to link. -/
theorem createAndLinkVrfTable_eq (vrf : Vrf) (importRts : List Text) (s : State) :
    createAndLinkVrfTable vrf importRts s =
      { tables := s.tables.insert vrf s.next
        importRts := Function.update s.importRts s.next importRts
        tablesForRt := Index.linkAll (rtRfId vrf.2) s.next importRts s.tablesForRt
        next := s.next + 1 } := by
  unfold createAndLinkVrfTable
  rcases eq_or_ne importRts [] with rfl | hne
  · rfl
  · simp only [if_pos hne, linkVrfTable]

theorem Ok.lookup_ne_next (h : Ok s) (vrf : Vrf) : s.tables.lookup vrf ≠ some s.next :=
  fun ht => absurd (h.lt_next vrf s.next ht) (Nat.lt_irrefl _)

theorem Ok.create (h : Ok s) (hvrf : vrf ∉ s.tables) (importRts : List Text) :
    Ok (createAndLinkVrfTable vrf importRts s) := by
  have hnext := h.lookup_ne_next
  rw [createAndLinkVrfTable_eq]
  refine ⟨fun vrf₁ vrf₂ t h₁ h₂ => ?_, fun vrf' t ht => ?_, h.tidy.linkAll _, fun id t => ?_⟩
  · rw [lookup_insert] at h₁ h₂
    split at h₁ <;> split at h₂
    · simp_all
    · cases h₁
      exact absurd h₂ (hnext vrf₂)
    · cases h₂
      exact absurd h₁ (hnext vrf₁)
    · exact h.inj vrf₁ vrf₂ t h₁ h₂
  · rw [lookup_insert] at ht
    split at ht
    · cases ht
      exact Nat.lt_succ_self _
    · exact Nat.lt_succ_of_lt (h.lt_next vrf' t ht)
  · rw [Index.mem_members_linkAll, h.mem_iff]
    by_cases ht : t = s.next
    · subst ht
      have hnone : ¬Imports s id s.next := fun ⟨vrf', hvrf', _⟩ => hnext vrf' hvrf'
      rw [or_iff_right hnone]
      simp only [true_and, Imports, update_self]
      constructor
      · exact fun hrt => ⟨vrf, by rw [lookup_insert, if_pos rfl], hrt⟩
      · rintro ⟨vrf', hvrf', hrt⟩
        rw [lookup_insert] at hvrf'
        split at hvrf'
        · rename_i hv
          rwa [hv] at hrt
        · exact absurd hvrf' (hnext vrf')
    · simp only [ht, false_and, or_false, Imports, update_of_ne ht]
      refine exists_congr fun vrf' => and_congr_left fun _ => ?_
      rw [lookup_insert]
      split
      · rename_i hv
        rw [hv, AList.lookup_eq_none.2 hvrf]
        simp [Ne.symm ht]
      · rfl

/-- Unlinking the table of a VRF from targets that it imports. -/
theorem Ok.unlink_eq_ok (h : Ok s) (ht : s.tables.lookup vrf = some t) (rts : List Text)
    (hrts : ∀ rt ∈ rts, rt ∈ s.importRts t) :
    ∃ d, Index.unlinkAll (rtRfId vrf.2) t rts s.tablesForRt = .ok d ∧ Index.Tidy d ∧
      ∀ id u, u ∈ Index.members d id ↔
        Imports s id u ∧ ¬(u = t ∧ ∃ rt ∈ rts, rtRfId vrf.2 rt = id) := by
  have hmem : ∀ rt ∈ rts, t ∈ Index.members s.tablesForRt (rtRfId vrf.2 rt) := by
    intro rt hrt
    rw [h.mem_iff]
    exact ⟨vrf, ht, rt, hrts rt hrt, rfl⟩
  obtain ⟨d, hok, htidy, hd⟩ := Index.unlinkAll_eq_ok h.tidy hmem
  exact ⟨d, hok, htidy, fun id u => by rw [hd, h.mem_iff]⟩

theorem Ok.remove (h : Ok s) (hvrf : vrf ∈ s.tables) :
    ∃ s', removeVrfByVrfConf vrf s = .ok s' ∧ Ok s' ∧ s'.tables = s.tables.erase vrf ∧
      s'.importRts = s.importRts := by
  obtain ⟨t, ht⟩ := mem_iff_lookup.1 hvrf
  obtain ⟨d, hok, htidy, hd⟩ := h.unlink_eq_ok ht (s.importRts t) fun _ hrt => hrt
  refine ⟨{ s with tables := s.tables.erase vrf, tablesForRt := d }, ?_, ?_, rfl, rfl⟩
  · rw [removeVrfByVrfConf, getItem_of_lookup ht]
    simp only [removeLinksToVrfTableForRts, hok, ok_bind]
    rfl
  · have herase : ∀ {vrf' u}, (s.tables.erase vrf).lookup vrf' = some u →
        vrf' ≠ vrf ∧ s.tables.lookup vrf' = some u := by
      intro vrf' u hu
      rw [lookup_erase] at hu
      split at hu
      · cases hu
      · exact ⟨‹_›, hu⟩
    refine ⟨fun vrf₁ vrf₂ u h₁ h₂ => h.inj vrf₁ vrf₂ u (herase h₁).2 (herase h₂).2,
      fun vrf' u hu => h.lt_next vrf' u (herase hu).2, htidy, fun id u => ?_⟩
    rw [hd, ← imports_iff_of_lookup h ht]
    constructor
    · rintro ⟨⟨vrf', hu, hrt⟩, hnot⟩
      refine ⟨vrf', ?_, hrt⟩
      rw [lookup_erase, if_neg]
      · exact hu
      · rintro rfl
        obtain rfl := Option.some.inj (hu.symm.trans ht)
        exact hnot ⟨rfl, vrf', ht, hrt⟩
    · rintro ⟨vrf', hu, hrt⟩
      obtain ⟨hne, hu⟩ := herase hu
      refine ⟨⟨vrf', hu, hrt⟩, ?_⟩
      rintro ⟨rfl, -⟩
      exact hne (h.inj vrf' vrf u hu ht)

section

variable (h : Ok s) (ht : s.tables.lookup vrf = some t)
include h ht

/-- Linking a table to more targets of its VRF. -/
theorem Ok.link (rts : List Text) : Ok { s with
      importRts := Function.update s.importRts t (s.importRts t ++ rts)
      tablesForRt := Index.linkAll (rtRfId vrf.2) t rts s.tablesForRt } := by
  refine ⟨h.inj, h.lt_next, h.tidy.linkAll rts, fun id u => ?_⟩
  rw [Index.mem_members_linkAll, h.mem_iff]
  by_cases hu : u = t
  · subst hu
    rw [imports_iff_of_lookup h ht]
    simp only [true_and, Imports, update_self, mem_append, or_and_right, exists_or]
    constructor
    · exact fun hrt => ⟨vrf, ht, hrt⟩
    · rintro ⟨vrf', ht', hrt⟩
      rwa [h.inj vrf' vrf u ht' ht] at hrt
  · simp only [hu, false_and, or_false, Imports, update_of_ne hu]

/-- Setting the import targets of a VRF after its table was unlinked from those that it had more. -/
theorem Ok.unlink {rts importRts : List Text}
    (hrts : ∀ rt, rt ∈ importRts ↔ rt ∈ s.importRts t ∧ rt ∉ rts)
    (hsub : ∀ rt ∈ rts, rt ∈ s.importRts t) :
    ∃ d, Index.unlinkAll (rtRfId vrf.2) t rts s.tablesForRt = .ok d ∧
      Ok { s with importRts := Function.update s.importRts t importRts, tablesForRt := d } := by
  obtain ⟨d, hok, htidy, hd⟩ := h.unlink_eq_ok ht rts hsub
  refine ⟨d, hok, h.inj, h.lt_next, htidy, fun id u => ?_⟩
  rw [hd]
  by_cases hu : u = t
  · subst hu
    rw [imports_iff_of_lookup h ht]
    simp only [true_and, Imports, update_self]
    constructor
    · rintro ⟨⟨rt, hrt, rfl⟩, hnot⟩
      exact ⟨vrf, ht, rt, (hrts rt).2 ⟨hrt, fun hold => hnot ⟨rt, hold, rfl⟩⟩, rfl⟩
    · rintro ⟨vrf', ht', rt, hrt, rfl⟩
      obtain rfl := h.inj vrf' vrf u ht' ht
      obtain ⟨hcurr, hnew⟩ := (hrts rt).1 hrt
      refine ⟨⟨rt, hcurr, rfl⟩, ?_⟩
      rintro ⟨rt', hrt', heq⟩
      exact hnew ((rtRfId_inj heq).2 ▸ hrt')
  · simp only [hu, false_and, not_false_eq_true, and_true, Imports, update_of_ne hu]

theorem Ok.update (importRts : List Text) :
    ∃ s', updateImportRts vrf t importRts s = .ok s' ∧ Ok s' ∧ s'.tables = s.tables ∧
      s'.importRts = Function.update s.importRts t importRts := by
  set newRts := importRts.filter (· ∉ s.importRts t) with hnew
  set oldRts := (s.importRts t).filter (· ∉ importRts) with hold
  have hlink := h.link ht newRts
  have hrts : ∀ rt, rt ∈ importRts ↔
      rt ∈ Function.update s.importRts t (s.importRts t ++ newRts) t ∧ rt ∉ oldRts := by
    simp only [update_self, mem_append, hnew, hold, mem_filter, decide_eq_true_eq]
    tauto
  have hsub : ∀ rt ∈ oldRts, rt ∈ Function.update s.importRts t (s.importRts t ++ newRts) t := by
    intro rt hrt
    rw [update_self]
    exact mem_append_left _ (mem_filter.1 hrt).1
  obtain ⟨d, hok, hd⟩ := hlink.unlink ht hrts hsub
  refine ⟨_, ?_, hd, rfl, by simp only [update_idem]⟩
  -- with nothing to link or to unlink the loops do nothing
  have hlinked : (if newRts ≠ [] then
      linkVrfTable t vrf.2 newRts { s with importRts := Function.update s.importRts t importRts }
      else { s with importRts := Function.update s.importRts t importRts }) =
      { s with
        importRts := Function.update s.importRts t importRts
        tablesForRt := Index.linkAll (rtRfId vrf.2) t newRts s.tablesForRt } := by
    split
    · rfl
    · rename_i hnil
      rw [not_ne_iff.1 hnil]
      rfl
  simp only [updateImportRts, updateVrfTableLinks, ← hnew, ← hold, hlinked]
  split
  · simp only [removeLinksToVrfTableForRts, hok, update_idem]
    rfl
  · rename_i hnil
    rw [not_ne_iff.1 hnil] at hok
    cases hok
    simp only [update_idem]

end

/-! ## Runs -/

/-- The targets of one VRF are changed. -/
theorem Ok.map_update (h : Ok s) (ht : s.tables.lookup vrf = some t) (importRts : List Text)
    (vrf' : Vrf) :
    (s.tables.lookup vrf').map (Function.update s.importRts t importRts) =
      if vrf = vrf' then some importRts else s.rtsOf vrf' := by
  split
  · rename_i heq
    rw [← heq, ht, Option.map_some, update_self]
  · rename_i hne
    refine Option.map_congr fun u hu => update_of_ne ?_ _ _
    rintro rfl
    exact hne (h.inj vrf vrf' u ht hu)

theorem Ok.rtsOf_create (h : Ok s) (hvrf : vrf ∉ s.tables) (importRts : List Text) (vrf' : Vrf) :
    (createAndLinkVrfTable vrf importRts s).rtsOf vrf' =
      configure vrf' (s.rtsOf vrf') (.create vrf importRts) := by
  rw [createAndLinkVrfTable_eq, State.rtsOf, configure]
  dsimp only
  rw [lookup_insert]
  by_cases heq : vrf' = vrf
  · subst heq
    simp [State.rtsOf, AList.lookup_eq_none.2 hvrf]
  · rw [if_neg heq, if_neg (Ne.symm heq)]
    refine Option.map_congr fun u hu => update_of_ne ?_ _ _
    rintro rfl
    exact h.lookup_ne_next vrf' hu

/-- An event that leaves the targets of its own VRF as they are leaves those of all. -/
theorem rtsOf_eq_configure {event : Event}
    (h : configure event.vrf (s.rtsOf event.vrf) event = s.rtsOf event.vrf) (vrf : Vrf) :
    s.rtsOf vrf = configure vrf (s.rtsOf vrf) event := by
  by_cases heq : event.vrf = vrf
  · rw [← heq, h]
  · cases event <;> exact (if_neg heq).symm

theorem Ok.step (h : Ok s) (event : Event) : ∃ s', step s event = .ok s' ∧ Ok s' ∧
    ∀ vrf, s'.rtsOf vrf = configure vrf (s.rtsOf vrf) event := by
  cases event with
  | create vrf importRts =>
    by_cases hvrf : vrf ∈ s.tables
    · obtain ⟨t, ht⟩ := mem_iff_lookup.1 hvrf
      refine ⟨s, if_pos hvrf, h, rtsOf_eq_configure ?_⟩
      simp [configure, Event.vrf, State.rtsOf, ht]
    · exact ⟨_, if_neg hvrf, h.create hvrf importRts, h.rtsOf_create hvrf importRts⟩
  | update vrf importRts =>
    cases ht : s.tables.lookup vrf with
    | none =>
      refine ⟨s, by simp only [TablesForRt.step, ht], h, rtsOf_eq_configure ?_⟩
      simp [configure, Event.vrf, State.rtsOf, ht]
    | some t =>
      obtain ⟨s', hok, hs', htables, hrts⟩ := h.update ht importRts
      refine ⟨s', by simpa only [TablesForRt.step, ht] using hok, hs', fun vrf' => ?_⟩
      rw [State.rtsOf, htables, hrts, h.map_update ht, configure]
      split
      · rename_i heq
        rw [← heq, State.rtsOf, ht]
        rfl
      · rfl
  | remove vrf =>
    by_cases hvrf : vrf ∈ s.tables
    · obtain ⟨s', hok, hs', htables, hrts⟩ := h.remove hvrf
      refine ⟨s', by simpa only [TablesForRt.step, if_pos hvrf] using hok, hs', fun vrf' => ?_⟩
      rw [State.rtsOf, htables, hrts, lookup_erase, configure]
      by_cases heq : vrf' = vrf
      · simp [heq]
      · simp [heq, Ne.symm heq, State.rtsOf]
    · refine ⟨s, if_neg hvrf, h, rtsOf_eq_configure ?_⟩
      simp [configure, Event.vrf, State.rtsOf, AList.lookup_eq_none.2 hvrf]

theorem foldlM_step (h : Ok s) (events : List Event) : ∃ s', events.foldlM step s = .ok s' ∧
    Ok s' ∧ ∀ vrf, s'.rtsOf vrf = events.foldl (configure vrf) (s.rtsOf vrf) := by
  induction events generalizing s with
  | nil => exact ⟨s, rfl, h, fun _ => rfl⟩
  | cons event events ih =>
    obtain ⟨s₁, hstep, hs₁, hrts₁⟩ := h.step event
    obtain ⟨s', hrest, hs', hrts'⟩ := ih hs₁
    refine ⟨s', ?_, hs', fun vrf => by rw [hrts', hrts₁, foldl_cons]⟩
    rw [foldlM_cons, hstep]
    exact hrest

/-- No operation raises, and after each run the index has exactly the tables that import. The VRFs
with tables and their import targets are those that the events have configured. -/
theorem run_indexed (events : List Event) :
    ∃ s, run events = .ok s ∧ Indexed s ∧ s.rtsOf = configured events := by
  obtain ⟨s, hrun, hs, hrts⟩ := foldlM_step ok_init events
  exact ⟨s, hrun, hs.indexed, funext hrts⟩

end BebaCtrl.Bgp.TablesForRt
