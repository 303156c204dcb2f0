import BebaCtrl.Beba.Stages
import BebaCtrl.Beba.Translation

/-!
# The switch behind the wrapper

Flow-mods fill the tables of a switch, and packets run through them. What the switch does with
headers is a parameter (`SwitchSem`): which header fields match, what actions other than setting the
two registers do, which entries a modification or deletion selects.

The main result is `stages_consulted_iff`: for every run of the application and every content of
learned entries, it says when the stages that a packet enters consult their flow tables once with
the state of the packet.
-/

namespace BebaCtrl

open Pipeline Stage OVSDatapath List Function

structure FlowEntry where
  priority : Nat
  fields : List (OxmName × UserValue)
  instructions : List Instruction

def OFPFlowMod.entry (fm : OFPFlowMod) : FlowEntry :=
  ⟨fm.priority, fm.ofpMatch.fields2, fm.instructions⟩

structure SwitchSem (Hdr : Type) where
  matchHdr : OxmName → UserValue → Hdr → Bool
  act : Action → Packet Hdr → Packet Hdr
  instr : Instruction → Hdr → Hdr
  selects : OFPFlowMod → FlowEntry → Bool

namespace SwitchSem

variable {Hdr : Type} (sem : SwitchSem Hdr)

/-! ## Entries -/

/-- A register against a value, under the mask if there is one. -/
def matchReg : UserValue → Nat → Bool
  | (.int v, none), r => r == v % 2 ^ 32
  | (.int v, some (.int m)), r => r &&& m == v % 2 ^ 32 &&& m
  | _, _ => false

def covers (fields : List (OxmName × UserValue)) (p : Packet Hdr) : Bool :=
  fields.all fun (name, value) =>
    if name = reg0 then matchReg value p.reg0
    else if name = reg1 then matchReg value p.reg1
    else sem.matchHdr name value p.hdr

def compileAct : Action → Act (Packet Hdr)
  | .setField name (.int v) =>
    if name = reg0 then .effect (setReg0 (v % 2 ^ 32))
    else if name = reg1 then .effect (setReg1 (v % 2 ^ 32))
    else .effect (sem.act (.setField name (.int v)))
  -- the wrapper resubmits with the port the packet came in by
  | .resubmitTable _ table => .resubmit table
  | a => .effect (sem.act a)

def compileInstr : Instruction → List (Act (Packet Hdr))
  | .actions type acts =>
    if type = ofpitApplyActions then acts.map sem.compileAct
    else [.effect fun p => { p with hdr := sem.instr (.actions type acts) p.hdr }]
  | .gotoTable _ => []
  | i => [.effect fun p => { p with hdr := sem.instr i p.hdr }]

def gotoOf (instrs : List Instruction) : Option Nat :=
  instrs.findSome? fun
    | .gotoTable table => some table
    | _ => none

def compile (e : FlowEntry) : Entry (Packet Hdr) where
  priority := e.priority
  covers := sem.covers e.fields
  acts := e.instructions.flatMap sem.compileInstr
  goto := gotoOf e.instructions

/-! ## Flow-mods -/

/-- The switch refuses a goto to the same or an earlier table. -/
def forward (fm : OFPFlowMod) : Bool :=
  fm.instructions.all fun
    | .gotoTable table => fm.tableId < table
    | _ => true

def isDelete (fm : OFPFlowMod) : Bool :=
  fm.command = ofpfcDelete || fm.command = ofpfcDeleteStrict

/-- A table after a flow-mod for it. -/
def change (fm : OFPFlowMod) (es : List FlowEntry) : List FlowEntry :=
  if fm.command = ofpfcAdd then
    es.filter (fun e => !(e.priority == fm.priority && e.fields == fm.ofpMatch.fields2)) ++
      [fm.entry]
  else if fm.command = ofpfcModify ∨ fm.command = ofpfcModifyStrict then
    es.map fun e => if sem.selects fm e then { e with instructions := fm.instructions } else e
  else if isDelete fm then es.filter fun e => !sem.selects fm e
  else es

/-- The tables after a message; the table id for all tables is for deleting only. -/
def install (tables : Nat → List FlowEntry) : Message → Nat → List FlowEntry
  | .flowMod fm =>
    if fm.tableId = ofpttAll then
      if isDelete fm then fun n => (tables n).filter fun e => !sem.selects fm e else tables
    else if forward fm then Function.update tables fm.tableId (sem.change fm (tables fm.tableId))
    else tables
  | _ => tables

def flowTables (sent : List Message) : Nat → List FlowEntry :=
  sent.foldl sem.install fun _ => []

/-- The tables of the switch: what was sent, and the learned entries of the state tables. -/
def tables (learned : Nat → List (Learned Hdr)) (sent : List Message) : Tables (Packet Hdr) :=
  fun n => (if n % 2 = 0 then (learned (n / 2)).map learnedEntry else []) ++
    (sem.flowTables sent n).map sem.compile

/-! ## What is in the tables -/

theorem flowTables_snoc (sent : List Message) (msg : Message) :
    sem.flowTables (sent ++ [msg]) = sem.install (sem.flowTables sent) msg := by
  simp [flowTables]

variable {sent : List Message}

/-- What holds of every entry with the instructions of a flow-mod, where a flow-mod that adds makes
its own entry only, holds of all entries of all tables. -/
theorem flowTables_forall {Q : Nat → FlowEntry → Prop}
    (hentry : ∀ fm, .flowMod fm ∈ sent → forward fm = true → ∀ e, e.instructions = fm.instructions →
      (fm.command = ofpfcAdd → e = fm.entry) → Q fm.tableId e) :
    ∀ n, ∀ e ∈ sem.flowTables sent n, Q n e := by
  induction sent using reverseRecOn with
  | nil => exact fun n e he => nomatch he
  | append_singleton sent msg ih =>
    have ih := ih fun fm hfm => hentry fm (mem_append_left _ hfm)
    rw [flowTables_snoc]
    intro n e he
    cases msg with
    | flowMod fm =>
      have hfm : Message.flowMod fm ∈ sent ++ [.flowMod fm] := by simp
      simp only [install] at he
      split_ifs at he with hall hdel hfwd
      · exact ih n e (mem_of_mem_filter he)
      · exact ih n e he
      · by_cases hn : n = fm.tableId
        · subst hn
          rw [update_self] at he
          unfold change at he
          split_ifs at he with hcmd hmodify hdelete
          · rcases mem_append.1 he with he | he
            · exact ih _ e (mem_of_mem_filter he)
            · cases mem_singleton.1 he
              exact hentry fm hfm hfwd _ rfl fun _ => rfl
          · obtain ⟨e', he', rfl⟩ := mem_map.1 he
            split
            · exact hentry fm hfm hfwd _ rfl fun hadd => absurd hadd hcmd
            · exact ih _ e' he'
          · exact ih _ e (mem_of_mem_filter he)
          · exact ih _ e he
        · rw [update_of_ne hn] at he
          exact ih n e he
      · exact ih n e he
    | _ => exact ih n e he

/-! ## Stages in the tables -/

theorem compile_control (t : Nat) : sem.compile (controlFlowMod t).entry = controlEntry t := by
  have hne : reg1 ≠ reg0 := by decide
  simp [compile, OFPFlowMod.entry, controlFlowMod, reg1Match, controlEntry, compileInstr,
    compileAct, gotoOf, hne, getStateTableId, getFlowTableId]
  funext p
  simp [covers, matchReg, hne]

theorem compile_default (t : Nat) : sem.compile (returnDefaultFlowMod t).entry = defaultEntry := by
  have hne : reg1 ≠ reg0 := by decide
  simp [compile, OFPFlowMod.entry, returnDefaultFlowMod, reg1Match, defaultEntry, compileInstr,
    compileAct, gotoOf]
  funext p
  simp [covers, matchReg, hne]

def IsResubmit : Action → Prop
  | .resubmitTable _ _ => True
  | _ => False

/-- A flow-mod that moves packets between tables by goto-table only. -/
def GotoOnly (fm : OFPFlowMod) : Prop := ∀ a ∈ actionsOf fm.instructions, ¬IsResubmit a

theorem compileAct_isEffect {a : Action} (h : ¬IsResubmit a) : (sem.compileAct a).IsEffect := by
  cases a with
  | setField name value =>
    cases value with
    | int v =>
      simp only [compileAct]
      split_ifs <;> trivial
    | _ => trivial
  | resubmitTable port table => exact absurd trivial h
  | _ => trivial

variable {is : List Instruction}

/-- What holds of the compiled actions of instructions and of every change of the header holds of
all that the instructions compile to. -/
theorem forall_compileInstr {Q : Act (Packet Hdr) → Prop}
    (hacts : ∀ a ∈ actionsOf is, Q (sem.compileAct a))
    (hhdr : ∀ f : Hdr → Hdr, Q (.effect fun p => { p with hdr := f p.hdr })) :
    ∀ a ∈ is.flatMap sem.compileInstr, Q a := by
  intro a ha
  obtain ⟨i, hi, ha⟩ := mem_flatMap.1 ha
  cases i with
  | actions type acts =>
    simp only [compileInstr] at ha
    split_ifs at ha
    · obtain ⟨b, hb, rfl⟩ := mem_map.1 ha
      exact hacts b (mem_flatMap.2 ⟨_, hi, hb⟩)
    · cases mem_singleton.1 ha
      exact hhdr _
  | gotoTable table => cases ha
  | writeMetadata m k =>
    cases mem_singleton.1 ha
    exact hhdr _
  | meter m =>
    cases mem_singleton.1 ha
    exact hhdr _

variable {g : Nat}

theorem mem_of_gotoOf (h : gotoOf is = some g) :
    .gotoTable g ∈ is := by
  obtain ⟨i, hi, hg⟩ := exists_of_findSome?_eq_some h
  cases i <;> cases hg
  exact hi

variable {fm : OFPFlowMod}

theorem lt_of_forward (h : forward fm = true) (hg : .gotoTable g ∈ fm.instructions) :
    fm.tableId < g := by
  simpa using all_eq_true.1 h _ hg

variable {msgs kept : List Message} {dp : OVSDatapath}

/-- The control or default entry of a state table stems from a message that was sent. -/
def StateEntry (sent : List Message) (t : Nat) (e : FlowEntry) : Prop :=
  e = (controlFlowMod t).entry ∧ .flowMod (controlFlowMod t) ∈ sent ∨
    e = (returnDefaultFlowMod t).entry ∧ .flowMod (returnDefaultFlowMod t) ∈ sent

variable {t : Nat} {e : FlowEntry}

/-- State tables hold control and default entries only. -/
theorem stateEntry_of_mem (hw : Wrapped msgs kept dp) (he : e ∈ sem.flowTables dp.sent (2 * t)) :
    StateEntry dp.sent t e := by
  suffices hall : ∀ n, ∀ e ∈ sem.flowTables dp.sent n, ∀ t, n = 2 * t → StateEntry dp.sent t e from
    hall _ e he t rfl
  refine sem.flowTables_forall fun fm hfm _ e _ hadd t ht => ?_
  rcases (hw.sent _ hfm).of_stateTable ht with ⟨rfl, -⟩ | ⟨rfl, -⟩
  · exact .inl ⟨hadd rfl, hfm⟩
  · exact .inr ⟨hadd rfl, hfm⟩

/-- The entries of flow tables are made of instructions of the application. -/
structure FlowTableEntry (msgs : List Message) (inUse : Finset Nat) (n : Nat) (e : FlowEntry) :
    Prop where
  actions : ∃ fm, .flowMod fm ∈ msgs ∧ actionsOf e.instructions ⊆ actionsOf fm.instructions
  goto : ∀ g, .gotoTable g ∈ e.instructions → n < g ∧ ∃ t ∈ inUse, g = 2 * t

variable {inUse : Finset Nat}

theorem flowTableEntry_of_mem (hw : Wrapped msgs kept dp)
    (he : e ∈ sem.flowTables dp.sent (2 * t + 1)) :
    FlowTableEntry msgs dp.statefulStagesInUse (2 * t + 1) e := by
  suffices hall : ∀ n, ∀ e ∈ sem.flowTables dp.sent n, n = 2 * t + 1 →
      FlowTableEntry msgs dp.statefulStagesInUse n e from hall _ e he rfl
  have hodd {t' : Nat} : getStateTableId t' ≠ 2 * t + 1 := by
    unfold getStateTableId
    omega
  refine sem.flowTables_forall fun fm hfm hfwd e he _ ht => ?_
  cases hw.sent _ hfm with
  | control _ => exact absurd ht hodd
  | default _ => exact absurd ht hodd
  | @flow fm' _ hmem htr =>
    refine ⟨⟨fm', hmem, ?_⟩, fun g hg => ?_⟩
    · rw [he]
      exact TransInstr.actions_subset htr.instructions
    · rw [he] at hg
      exact ⟨lt_of_forward hfwd hg, TransInstr.goto htr.instructions hg⟩

/-- The control entry of a stage is in its state table. -/
def HasControl (sent : List Message) (t : Nat) : Prop :=
  (controlFlowMod t).entry ∈ sem.flowTables sent (2 * t)

/-- The default entry of a stage is in its state table. -/
def HasDefault (sent : List Message) (t : Nat) : Prop :=
  (returnDefaultFlowMod t).entry ∈ sem.flowTables sent (2 * t)

theorem tables_state (learned : Nat → List (Learned Hdr)) (sent : List Message) (t : Nat) :
    sem.tables learned sent (2 * t) =
      (learned t).map learnedEntry ++ (sem.flowTables sent (2 * t)).map sem.compile := by
  have hdiv : 2 * t / 2 = t := by omega
  have hmod : 2 * t % 2 = 0 := by omega
  rw [tables, if_pos hmod, hdiv]

theorem tables_flow (learned : Nat → List (Learned Hdr)) (sent : List Message) (t : Nat) :
    sem.tables learned sent (2 * t + 1) = (sem.flowTables sent (2 * t + 1)).map sem.compile := by
  have hmod : ¬(2 * t + 1) % 2 = 0 := by omega
  rw [tables, if_neg hmod, nil_append]

theorem controlEntry_ne_defaultEntry (t : Nat) :
    (controlEntry t : Entry (Packet Hdr)) ≠ defaultEntry := by
  intro h
  have := congrArg (fun e : Entry (Packet Hdr) => e.acts.length) h
  simp [controlEntry, defaultEntry] at this

/-- The tables that the wrapper builds are made of stages. -/
theorem stageTables (hw : Wrapped msgs kept dp) (hgoto : ∀ fm, .flowMod fm ∈ msgs → GotoOnly fm)
    (learned : Nat → List (Learned Hdr)) :
    StageTables learned (sem.tables learned dp.sent) (sem.HasControl dp.sent)
      (sem.HasDefault dp.sent) := by
  refine ⟨fun t => ?_, fun t e he => ?_, fun t e he g hg => ?_⟩
  · refine ⟨_, sem.tables_state learned dp.sent t, fun e he => ?_, ⟨fun hmem => ?_, fun h => ?_⟩,
      fun hmem => ?_, fun h => ?_⟩
    · obtain ⟨e', he', rfl⟩ := mem_map.1 he
      rcases sem.stateEntry_of_mem hw he' with ⟨rfl, -⟩ | ⟨rfl, -⟩
      · exact .inl (sem.compile_control t)
      · exact .inr (sem.compile_default t)
    · obtain ⟨e, he, hcompile⟩ := mem_map.1 hmem
      rcases sem.stateEntry_of_mem hw he with ⟨rfl, -⟩ | ⟨rfl, -⟩
      · exact he
      · rw [sem.compile_default] at hcompile
        exact absurd hcompile.symm (controlEntry_ne_defaultEntry t)
    · exact mem_map.2 ⟨_, h, sem.compile_control t⟩
    · obtain ⟨e, he, hcompile⟩ := mem_map.1 hmem
      rcases sem.stateEntry_of_mem hw he with ⟨rfl, -⟩ | ⟨rfl, -⟩
      · rw [sem.compile_control] at hcompile
        exact absurd hcompile (controlEntry_ne_defaultEntry t)
      · exact he
    · exact mem_map.2 ⟨_, h, sem.compile_default t⟩
  · rw [tables_flow] at he
    obtain ⟨e', he', rfl⟩ := mem_map.1 he
    obtain ⟨⟨fm, hfm, hsub⟩, -⟩ := sem.flowTableEntry_of_mem hw he'
    exact sem.forall_compileInstr
      (fun a ha => sem.compileAct_isEffect (hgoto fm hfm a (hsub ha))) fun _ => trivial
  · rw [tables_flow] at he
    obtain ⟨e', he', rfl⟩ := mem_map.1 he
    obtain ⟨hlt, t', ht', rfl⟩ := (sem.flowTableEntry_of_mem hw he').goto g (mem_of_gotoOf hg)
    exact ⟨t', rfl, by omega, (hw.control t' ht').1⟩

/-! ## Entries that stay -/

/-- The table of stage 127 has the id for all tables, so that deleting there deletes everywhere. -/
def Spares (fm : OFPFlowMod) : Prop := fm.tableId = 127 → isDelete fm = false

theorem reg1Match_ne : (reg1Match 0).fields2 ≠ (reg1Match 1).fields2 := by decide

/-- The flow-mods for the control and the default entry of stage `t`. -/
def IsStateMod (t : Nat) (fm : OFPFlowMod) : Prop :=
  fm = controlFlowMod t ∨ fm = returnDefaultFlowMod t

/-- The two have different matches. -/
theorem IsStateMod.eq_of_fields {fm' : OFPFlowMod} (h : IsStateMod t fm) (h' : IsStateMod t fm')
    (hfields : fm.entry.fields = fm'.entry.fields) : fm = fm' := by
  rcases h with rfl | rfl <;> rcases h' with rfl | rfl
  · rfl
  · exact absurd hfields reg1Match_ne
  · exact absurd hfields reg1Match_ne.symm
  · rfl

/-- Such a flow-mod replaces an entry with the same match by itself and leaves the others. -/
theorem install_stateMod (h : IsStateMod t fm) (tables : Nat → List FlowEntry) :
    sem.install tables (.flowMod fm) = Function.update tables (2 * t)
      ((tables (2 * t)).filter (fun e =>
        !(e.priority == fm.priority && e.fields == fm.ofpMatch.fields2)) ++ [fm.entry]) := by
  have htab : 2 * t ≠ ofpttAll := by
    unfold ofpttAll
    omega
  rcases h with rfl | rfl <;> exact if_neg htab

theorem mem_install_self (h : IsStateMod t fm) (tables : Nat → List FlowEntry) :
    fm.entry ∈ sem.install tables (.flowMod fm) (2 * t) := by
  rw [install_stateMod sem h, update_self]
  simp

/-- An entry of a state table stays through a message of the wrapper, when no deletion reaches all
tables. -/
theorem mem_install {msg : Message} (hmsg : StageMsg msgs inUse msg)
    (hspare : ∀ fm, .flowMod fm ∈ msgs → Spares fm) {tables : Nat → List FlowEntry}
    (h : IsStateMod t fm) (he : fm.entry ∈ tables (2 * t)) :
    fm.entry ∈ sem.install tables msg (2 * t) := by
  have hstate {t' : Nat} {fm' : OFPFlowMod} (h' : IsStateMod t' fm') :
      fm.entry ∈ sem.install tables (.flowMod fm') (2 * t) := by
    by_cases ht : t' = t
    · subst ht
      by_cases hsame : fm = fm'
      · rw [hsame]
        exact sem.mem_install_self h' tables
      · have hfields : fm.entry.fields ≠ fm'.ofpMatch.fields2 := mt (h.eq_of_fields h') hsame
        rw [sem.install_stateMod h', update_self]
        exact mem_append_left _ (mem_filter.2 ⟨he, by simp [hfields]⟩)
    · rw [sem.install_stateMod h', update_of_ne (by omega)]
      exact he
  cases hmsg with
  | control _ => exact hstate (.inl rfl)
  | default _ => exact hstate (.inr rfl)
  | @flow fm₀ fm' hfm htr =>
    have htable : fm'.tableId = 2 * fm₀.tableId + 1 := htr.tableId
    simp only [install]
    split_ifs with hall hdel hfwd
    · have hdel₀ : isDelete fm₀ = true := by simpa [isDelete, htr.command] using hdel
      have h127 : fm₀.tableId = 127 := by
        have : fm'.tableId = 255 := hall
        omega
      rw [hspare fm₀ hfm h127] at hdel₀
      cases hdel₀
    · exact he
    · rw [update_of_ne (by omega)]
      exact he
    · exact he

theorem mem_flowTables (hsent : ∀ msg ∈ sent, StageMsg msgs inUse msg)
    (hspare : ∀ fm, .flowMod fm ∈ msgs → Spares fm) (h : IsStateMod t fm)
    (hmem : .flowMod fm ∈ sent) :
    fm.entry ∈ sem.flowTables sent (2 * t) := by
  induction sent using reverseRecOn with
  | nil => cases hmem
  | append_singleton sent msg ih =>
    rw [flowTables_snoc]
    rcases mem_append.1 hmem with hmem | hmem
    · have he := ih (fun m hm => hsent m (mem_append_left _ hm)) hmem
      exact sem.mem_install (hsent msg (by simp)) hspare h he
    · cases mem_singleton.1 hmem
      exact sem.mem_install_self h _

/-- The control or default entry of a stage is installed exactly when it was sent. -/
theorem entry_mem_flowTables_iff (hw : Wrapped msgs kept dp)
    (hspare : ∀ fm, .flowMod fm ∈ msgs → Spares fm) (h : IsStateMod t fm) :
    fm.entry ∈ sem.flowTables dp.sent (2 * t) ↔ .flowMod fm ∈ dp.sent := by
  refine ⟨fun he => ?_, sem.mem_flowTables hw.sent hspare h⟩
  rcases sem.stateEntry_of_mem hw he with ⟨he, hsent⟩ | ⟨he, hsent⟩
  · rwa [h.eq_of_fields (.inl rfl) (congrArg FlowEntry.fields he)]
  · rwa [h.eq_of_fields (.inr rfl) (congrArg FlowEntry.fields he)]

/-! ## Packets through the stages -/

/-- The actions of a flow-mod leave the mark of a packet alone. -/
def LeavesMark (fm : OFPFlowMod) : Prop :=
  ∀ a ∈ actionsOf fm.instructions, ∀ p, ((sem.compileAct a).apply p).reg1 = p.reg1

theorem reg1_foldl {acts : List (Act (Packet Hdr))}
    (h : ∀ a ∈ acts, ∀ p, (a.apply p).reg1 = p.reg1) (p : Packet Hdr) :
    (acts.foldl Act.apply p).reg1 = p.reg1 := by
  induction acts generalizing p with
  | nil => rfl
  | cons a acts ih =>
    rw [foldl_cons, ih fun b hb => h b (mem_cons_of_mem a hb), h a mem_cons_self]

variable {learned : Nat → List (Learned Hdr)}

/-- The entry that a packet meets in a flow table comes from a flow-mod of the application. -/
theorem best_flow (hw : Wrapped msgs kept dp) {q : Packet Hdr}
    {e : Entry (Packet Hdr)} (he : best q (sem.tables learned dp.sent (2 * t + 1)) = some e) :
    ∃ e', FlowTableEntry msgs dp.statefulStagesInUse (2 * t + 1) e' ∧ e = sem.compile e' := by
  have hmem := (best_eq_some he).1
  rw [tables_flow] at hmem
  obtain ⟨e', he', rfl⟩ := mem_map.1 hmem
  exact ⟨e', sem.flowTableEntry_of_mem hw he', rfl⟩

/-- A flow-mod that leaves the mark of packets alone, spares the state tables and does not go back
to the first stage. -/
structure Plain (fm : OFPFlowMod) : Prop where
  leavesMark : sem.LeavesMark fm
  spares : Spares fm
  forward : .gotoTable 0 ∉ fm.instructions

/-- With plain flow-mods, all stages on the way of an unmarked packet are ready exactly when the
first stage has its control entry, every stage that the packet leaves had a learned state for it,
and every stage loads its state or finds the register zero. -/
theorem ready_iff_hits (hw : Wrapped msgs kept dp)
    (hplain : ∀ fm, .flowMod fm ∈ msgs → sem.Plain fm)
    {p : Packet Hdr} (hp : p.reg1 = 0) {trace : List (Lookup (Packet Hdr))}
    (hpath : Path learned (sem.tables learned dp.sent) (sem.HasControl dp.sent)
      (sem.HasDefault dp.sent) t p trace) :
    (∀ v ∈ trace, v.entered → Ready learned (sem.HasControl dp.sent) (sem.HasDefault dp.sent) v) ↔
      .flowMod (controlFlowMod t) ∈ dp.sent ∧ (∀ v ∈ (entries trace).dropLast, Hit learned v) ∧
        ∀ v ∈ entries trace, Hit learned v ∨
          .flowMod (returnDefaultFlowMod (v.table / 2)) ∈ dp.sent ∨ v.packet.reg0 = 0 := by
  have hspare (fm : OFPFlowMod) (h : .flowMod fm ∈ msgs) : Spares fm := (hplain fm h).spares
  have hcontrol (t : Nat) : sem.HasControl dp.sent t ↔ .flowMod (controlFlowMod t) ∈ dp.sent :=
    sem.entry_mem_flowTables_iff hw hspare (.inl rfl)
  have hdefault (t : Nat) : sem.HasDefault dp.sent t ↔
      .flowMod (returnDefaultFlowMod t) ∈ dp.sent :=
    sem.entry_mem_flowTables_iff hw hspare (.inr rfl)
  simp only [← hcontrol, ← hdefault]
  by_cases hc : sem.HasControl dp.sent t
  · have hiff := hpath.ready_iff (fun t q e he => ?_) (fun t q e t' he hg => ?_) hp hc
    · rw [hiff]
      simp [hc]
    · obtain ⟨e', ⟨⟨fm, hfm, hsub⟩, -⟩, rfl⟩ := sem.best_flow hw he
      refine reg1_foldl (sem.forall_compileInstr (fun a ha => ?_) fun f q => rfl) q
      exact (hplain fm hfm).leavesMark a (hsub ha)
    · obtain ⟨e', hentry, rfl⟩ := sem.best_flow hw he
      obtain ⟨-, t'', ht'', heq⟩ := hentry.goto _ (mem_of_gotoOf hg)
      have htt : t' = t'' := by omega
      rw [htt, hcontrol]
      exact (hw.control t'' ht'').2
  · refine ⟨fun hall => absurd ?_ hc, fun hall => absurd hall.1 hc⟩
    obtain ⟨rest, rfl⟩ := hpath.head
    have hready := (hall _ mem_cons_self rfl).2.1
    have hdiv : 2 * t / 2 = t := by omega
    rwa [hdiv] at hready

/-- Every packet gets through the stages. All flow tables on its way are consulted once, with the
state learned for the packet or zero, exactly when it enters every stage unmarked, with the control
entry in place, and finds a learned state, a default entry or a zero register. When the flow-mods of
the application are plain, this is so exactly when stage 0 is configured, every stage that the
packet leaves had a learned state for it, and every stage has a learned state, is configured, or is
entered with a zero register. -/
theorem stages_consulted_iff (conv : Addrconv) (xid : Nat) (learned : Nat → List (Learned Hdr))
    (msgs : List Message) (hmsgs : ∀ msg ∈ msgs, AppMsg msg)
    (hgoto : ∀ fm, .flowMod fm ∈ msgs → GotoOnly fm) (hdr : Hdr) :
    let sent := (sendAll conv msgs (beba2OVSWrapper xid)).sent
    ∃ q trace, (∀ depth, 256 ≤ depth →
        exec (sem.tables learned sent) depth true 0 ⟨hdr, 0, 0⟩ = some (q, trace)) ∧
      ((∀ v ∈ trace, v.entered → Consulted learned trace v) ↔
        ∀ v ∈ trace, v.entered → Ready learned (sem.HasControl sent) (sem.HasDefault sent) v) ∧
      ((∀ fm, .flowMod fm ∈ msgs → sem.Plain fm) →
        ((∀ v ∈ trace, v.entered → Consulted learned trace v) ↔
          Configured msgs 0 ∧ (∀ v ∈ (entries trace).dropLast, Hit learned v) ∧
            ∀ v ∈ entries trace,
              Hit learned v ∨ Configured msgs (v.table / 2) ∨ v.packet.reg0 = 0)) := by
  set dp := sendAll conv msgs (beba2OVSWrapper xid)
  have hw : Wrapped msgs [] dp :=
    (wrapped_beba2OVSWrapper msgs xid).sendAll hmsgs (List.Subset.refl _)
  obtain ⟨q, trace, hpath, hexec⟩ :=
    exec_path (sem.stageTables hw hgoto learned) (by decide : 0 < 128) ⟨hdr, 0, 0⟩
  refine ⟨q, trace, hexec, hpath.consulted_iff, fun hplain => ?_⟩
  have hcontrol : .flowMod (controlFlowMod 0) ∈ dp.sent ↔ Configured msgs 0 := by
    refine ⟨fun h => ?_, fun h => (mem_sendAll_of_configured xid hmsgs h).1⟩
    rcases hw.configured_or_targeted h with h | ⟨fm, hfm, h⟩
    · exact h
    · exact absurd h (hplain fm hfm).forward
  have hdefault (t : Nat) : .flowMod (returnDefaultFlowMod t) ∈ dp.sent ↔ Configured msgs t :=
    ⟨hw.configured, fun h => (mem_sendAll_of_configured xid hmsgs h).2⟩
  rw [hpath.consulted_iff, sem.ready_iff_hits hw hplain rfl hpath, hcontrol]
  simp only [hdefault]

/-! ## Two stages -/

/-- A flow-mod of stage 0 that sends every packet to stage 1. -/
def gotoOne : OFPFlowMod where
  ofpMatch := ⟨ofpmtOxm, none, [], []⟩
  instructions := [.gotoTable 1]

/-- The configuration of stage `t`. -/
def configure (t : UInt8) : OFPExperimenter :=
  ⟨bebaExperimenterId, ofptExpStateMod, some [0, 0, t, 1], none⟩

/-- Stages 0 and 1 are configured, and stage 0 goes to stage 1. -/
def twoStages : List Message :=
  [.experimenter (configure 0), .experimenter (configure 1), .flowMod gotoOne]

theorem appMsg_twoStages : ∀ msg ∈ twoStages, AppMsg msg := by
  intro msg hmsg
  simp only [twoStages, mem_cons, not_mem_nil, or_false] at hmsg
  rcases hmsg with rfl | rfl | rfl
  · exact .config (show expMsgConfigureStatefulTable 1 0 = _ from rfl)
  · exact .config (show expMsgConfigureStatefulTable 1 1 = _ from rfl)
  · exact .flowMod gotoOne

theorem mem_twoStages (h : .flowMod fm ∈ twoStages) : fm = gotoOne := by
  simpa [twoStages] using h

theorem gotoOnly_twoStages : ∀ fm, .flowMod fm ∈ twoStages → GotoOnly fm := by
  intro fm hfm
  cases mem_twoStages hfm
  exact fun a ha => nomatch ha

/-- A switch that looks at the registers only. -/
def registersOnly : SwitchSem Unit :=
  ⟨fun _ _ _ => true, fun _ p => p, fun _ h => h, fun _ _ => true⟩

theorem plain_twoStages : ∀ fm, .flowMod fm ∈ twoStages → registersOnly.Plain fm := by
  intro fm hfm
  cases mem_twoStages hfm
  refine ⟨fun a ha => ?_, fun h => ?_, by simp [gotoOne]⟩
  · cases ha
  · cases h

theorem configured_twoStages (ht : t = 0 ∨ t = 1) : Configured twoStages t := by
  rcases ht with rfl | rfl
  · exact ⟨by decide, 1, configure 0, rfl, by simp [twoStages]⟩
  · exact ⟨by decide, 1, configure 1, rfl, by simp [twoStages]⟩

/-- With state 5 learned for every packet in stage 0, both stages are consulted. -/
theorem stages_consulted_iff_two :
    let learned : Nat → List (Learned Unit) := fun t => if t = 0 then [⟨fun _ => true, 5⟩] else []
    let sent := (sendAll OFPMatch.latin1Addrconv twoStages (beba2OVSWrapper 0)).sent
    ∃ q trace, exec (registersOnly.tables learned sent) 256 true 0 ⟨(), 0, 0⟩ = some (q, trace) ∧
      (entries trace).map (·.table) = [0, 2] ∧
      ∀ v ∈ trace, v.entered → Consulted learned trace v := by
  intro learned sent
  obtain ⟨q, trace, hexec, -, hiff⟩ := stages_consulted_iff registersOnly OFPMatch.latin1Addrconv 0
    learned twoStages appMsg_twoStages gotoOnly_twoStages ()
  have hrun : (exec (registersOnly.tables learned sent) 256 true 0 ⟨(), 0, 0⟩).map
      (fun r => (entries r.2).map (·.table)) = some [0, 2] := by decide +kernel
  rw [hexec 256 (Nat.le_refl _), Option.map_some, Option.some.injEq] at hrun
  refine ⟨q, trace, hexec 256 (Nat.le_refl _), hrun, (hiff plain_twoStages).2
    ⟨configured_twoStages (.inl rfl), fun v hv => ?_, fun v hv => .inr (.inl ?_)⟩⟩
  · have hmem : v.table ∈ ((entries trace).map (·.table)).dropLast := by
      rw [← map_dropLast]
      exact mem_map_of_mem hv
    rw [hrun] at hmem
    have htable : v.table = 0 := by simpa using hmem
    simp [Hit, htable, findLearned, learned]
  · have hmem : v.table ∈ (entries trace).map (·.table) := mem_map_of_mem hv
    rw [hrun] at hmem
    apply configured_twoStages
    simp only [mem_cons, not_mem_nil, or_false] at hmem
    omega

/-- Without learned states the packet reaches stage 1 marked, and its flow table is not consulted.
-/
theorem stages_second_not_consulted : (∀ msg ∈ twoStages, AppMsg msg) ∧
    (∀ fm, .flowMod fm ∈ twoStages → GotoOnly fm) ∧
      ∃ q trace, exec (registersOnly.tables (fun _ => [])
        (sendAll OFPMatch.latin1Addrconv twoStages (beba2OVSWrapper 0)).sent) 256 true 0
          ⟨(), 0, 0⟩ = some (q, trace) ∧
      ∃ v ∈ trace, v.entered = true ∧ v.table = 2 ∧ v.packet.reg1 = 1 ∧
        ¬Consulted (fun _ => []) trace v := by
  refine ⟨appMsg_twoStages, gotoOnly_twoStages, ?_⟩
  have hrun : (exec (registersOnly.tables (fun _ => [])
      (sendAll OFPMatch.latin1Addrconv twoStages (beba2OVSWrapper 0)).sent) 256 true 0
        ⟨(), 0, 0⟩).map (fun r => r.2.map fun v => (v.table, v.entered, v.packet.reg1)) =
      some [(0, true, 0), (0, false, 1), (1, false, 1), (2, true, 1)] := by decide +kernel
  obtain ⟨⟨q, trace⟩, hexec, htrace⟩ := Option.map_eq_some_iff.1 hrun
  refine ⟨q, trace, hexec, ?_⟩
  have hmem : (2, true, 1) ∈ trace.map fun v => (v.table, v.entered, v.packet.reg1) := by
    rw [htrace]
    decide
  obtain ⟨v, hv, heq⟩ := mem_map.1 hmem
  simp only [Prod.mk.injEq] at heq
  refine ⟨v, hv, heq.2.1, heq.1, heq.2.2, ?_⟩
  rintro ⟨w, hw, -⟩
  have hwmem : w ∈ trace.filter fun w => w.table == v.table + 1 := by simp [hw]
  obtain ⟨hwmem, hwtable⟩ := mem_filter.1 hwmem
  have hall : ∀ x ∈ trace.map fun v => (v.table, v.entered, v.packet.reg1), x.1 ≠ 3 := by
    rw [htrace]
    decide
  refine hall _ (mem_map.2 ⟨w, hwmem, rfl⟩) ?_
  rw [heq.1] at hwtable
  simpa using hwtable

end SwitchSem

end BebaCtrl
