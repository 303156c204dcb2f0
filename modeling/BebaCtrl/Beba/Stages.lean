import BebaCtrl.Lib.Pipeline

/-!
# Beba stages in flow tables

A stage `t` takes two flow tables: the state table `2t`, which finds the state of a packet, and the
flow table `2t + 1`. A packet carries two registers. The first holds the state; the second marks a
packet whose state is being looked up. In the state table an unmarked packet is marked, looked up
again in the same table and then looked up in the flow table; a learned entry for the key of a
marked packet loads the state and takes the mark away.

`Path` is the way of a packet through the stages, `exec_path` its agreement with the tables.
`Path.consulted_iff` says when every stage on the way consults its flow table once with the right
state, `Path.ready_iff` what this means for the lookups when the flow tables leave the registers
alone: nothing takes the mark off a packet without a learned state.
-/

namespace BebaCtrl

open Pipeline List

structure Packet (Hdr : Type) where
  hdr : Hdr
  reg0 : Nat
  reg1 : Nat

/-- A learned state, for the packets with a key. -/
structure Learned (Hdr : Type) where
  key : Hdr → Bool
  state : Nat

namespace Stage

variable {Hdr : Type}

def setReg0 (v : Nat) (p : Packet Hdr) : Packet Hdr := { p with reg0 := v }

def setReg1 (v : Nat) (p : Packet Hdr) : Packet Hdr := { p with reg1 := v }

/-! ## The entries of a state table -/

def learnedEntry (l : Learned Hdr) : Entry (Packet Hdr) where
  priority := 100
  covers p := p.reg1 == 1 && l.key p.hdr
  acts := [.effect (setReg1 0), .effect (setReg0 l.state)]
  goto := none

def controlEntry (t : Nat) : Entry (Packet Hdr) where
  priority := 10
  covers p := p.reg1 == 0
  acts := [.effect (setReg1 1), .resubmit (2 * t), .resubmit (2 * t + 1)]
  goto := none

def defaultEntry : Entry (Packet Hdr) where
  priority := 10
  covers p := p.reg1 == 1
  acts := [.effect (setReg0 0)]
  goto := none

variable (learned : Nat → List (Learned Hdr))

def findLearned (t : Nat) (h : Hdr) : Option (Learned Hdr) := (learned t).find? (·.key h)

/-- The state learned for a packet in a stage, zero when there is none. -/
def stateOf (t : Nat) (h : Hdr) : Nat := ((findLearned learned t h).map Learned.state).getD 0

/-- Tables made of stages: learned entries, and the control and default entries where they are
installed; flow entries go to later stages by a goto only. -/
structure StageTables (tables : Tables (Packet Hdr)) (control default : Nat → Prop) : Prop where
  state : ∀ t, ∃ es, tables (2 * t) = (learned t).map learnedEntry ++ es ∧
    (∀ e ∈ es, e = controlEntry t ∨ e = defaultEntry) ∧
    (controlEntry t ∈ es ↔ control t) ∧ (defaultEntry ∈ es ↔ default t)
  effects : ∀ t, ∀ e ∈ tables (2 * t + 1), ∀ a ∈ e.acts, a.IsEffect
  goto : ∀ t, ∀ e ∈ tables (2 * t + 1), ∀ g, e.goto = some g → ∃ t', g = 2 * t' ∧ t < t' ∧ t' < 128

/-! ## Lookups in a state table -/

section Lookups

variable {learned} {tables : Tables (Packet Hdr)} {control default : Nat → Prop}
  (hs : StageTables learned tables control default) {t : Nat} {p : Packet Hdr}

include hs

theorem mem_stateTable {e : Entry (Packet Hdr)} : e ∈ tables (2 * t) ↔
    (∃ l ∈ learned t, learnedEntry l = e) ∨ e = controlEntry t ∧ control t ∨
      e = defaultEntry ∧ default t := by
  obtain ⟨es, htab, hes, hctl, hdef⟩ := hs.state t
  rw [htab, mem_append, mem_map]
  refine or_congr_right ⟨fun he => ?_, ?_⟩
  · rcases hes e he with rfl | rfl
    · exact .inl ⟨rfl, hctl.1 he⟩
    · exact .inr ⟨rfl, hdef.1 he⟩
  · rintro (⟨rfl, hc⟩ | ⟨rfl, hd⟩)
    · exact hctl.2 hc
    · exact hdef.2 hd

theorem best_control (hp : p.reg1 = 0) (hc : control t) :
    best p (tables (2 * t)) = some (controlEntry t) := by
  have hmem := (mem_stateTable hs).2 (.inr (.inl ⟨rfl, hc⟩))
  refine best_only hmem (by simp [controlEntry, hp]) fun e he hcov => ?_
  rcases (mem_stateTable hs).1 he with ⟨l, -, rfl⟩ | ⟨rfl, -⟩ | ⟨rfl, -⟩
  · simp [learnedEntry, hp] at hcov
  · rfl
  · simp [defaultEntry, hp] at hcov

/-- An unmarked packet stops where there is no control entry; other marks are not looked up. -/
theorem best_stop (hp : p.reg1 ≠ 1) (hc : ¬(p.reg1 = 0 ∧ control t)) :
    best p (tables (2 * t)) = none := by
  refine best_eq_none fun e he => ?_
  rcases (mem_stateTable hs).1 he with ⟨l, -, rfl⟩ | ⟨rfl, hctl⟩ | ⟨rfl, -⟩
  · simp [learnedEntry, hp]
  · have h0 : p.reg1 ≠ 0 := fun h0 => hc ⟨h0, hctl⟩
    simp [controlEntry, h0]
  · simp [defaultEntry, hp]

theorem best_hit (hp : p.reg1 = 1) {l : Learned Hdr} (hl : findLearned learned t p.hdr = some l) :
    best p (tables (2 * t)) = some (learnedEntry l) := by
  refine best_eq_find ?_ fun e he _ => ?_
  · have hcov : ((fun e : Entry (Packet Hdr) => e.covers p) ∘ learnedEntry) =
        fun l : Learned Hdr => l.key p.hdr := by
      funext l
      simp [learnedEntry, hp]
    have hfind : ((learned t).map learnedEntry).find? (·.covers p) = some (learnedEntry l) := by
      rw [find?_map, hcov, show (learned t).find? (fun l => l.key p.hdr) = some l from hl]
      rfl
    obtain ⟨es, htab, -⟩ := hs.state t
    rw [htab, find?_append, hfind]
    rfl
  · rcases (mem_stateTable hs).1 he with ⟨l', -, rfl⟩ | ⟨rfl, -⟩ | ⟨rfl, -⟩
    · exact Nat.le_refl 100
    all_goals exact (by decide : 10 ≤ 100)

theorem best_default (hp : p.reg1 = 1) (hl : findLearned learned t p.hdr = none) (hd : default t) :
    best p (tables (2 * t)) = some defaultEntry := by
  have hmem := (mem_stateTable hs).2 (.inr (.inr ⟨rfl, hd⟩))
  refine best_only hmem (by simp [defaultEntry, hp]) fun e he hcov => ?_
  rcases (mem_stateTable hs).1 he with ⟨l, hmem, rfl⟩ | ⟨rfl, -⟩ | ⟨rfl, -⟩
  · simp [learnedEntry, find?_eq_none.1 hl l hmem] at hcov
  · simp [controlEntry, hp] at hcov
  · rfl

theorem best_miss (hp : p.reg1 = 1) (hl : findLearned learned t p.hdr = none) (hd : ¬default t) :
    best p (tables (2 * t)) = none := by
  refine best_eq_none fun e he => ?_
  rcases (mem_stateTable hs).1 he with ⟨l, hmem, rfl⟩ | ⟨rfl, -⟩ | ⟨rfl, hdef⟩
  · simp [learnedEntry, find?_eq_none.1 hl l hmem]
  · simp [controlEntry, hp]
  · exact absurd hdef hd

end Lookups

/-! ## The way of a packet through the stages -/

section Path

variable (tables : Tables (Packet Hdr)) (control default : Nat → Prop)

/-- What the lookup of its state makes of an unmarked packet. -/
inductive Looked (t : Nat) (p : Packet Hdr) : Packet Hdr → Prop where
  | hit {l : Learned Hdr} (hl : findLearned learned t p.hdr = some l) :
    Looked t p ⟨p.hdr, l.state, 0⟩
  | default (hl : findLearned learned t p.hdr = none) (hd : default t) : Looked t p ⟨p.hdr, 0, 1⟩
  | miss (hl : findLearned learned t p.hdr = none) (hd : ¬default t) : Looked t p ⟨p.hdr, p.reg0, 1⟩

/-- The lookups of a packet that enters stage `t`. It stops in the state table, or goes on to the
flow table, where its way ends or a goto takes it to a later stage. -/
inductive Path : Nat → Packet Hdr → List (Lookup (Packet Hdr)) → Prop where
  | stop {t : Nat} {p : Packet Hdr} (h : ¬(p.reg1 = 0 ∧ control t)) : Path t p [⟨2 * t, p, true⟩]
  | last {t : Nat} {p q : Packet Hdr} (h : p.reg1 = 0 ∧ control t)
    (hq : Looked learned default t p q)
    (hflow : ∀ e, best q (tables (2 * t + 1)) = some e → e.goto = none) :
    Path t p [⟨2 * t, p, true⟩, ⟨2 * t, setReg1 1 p, false⟩, ⟨2 * t + 1, q, false⟩]
  | next {t t' : Nat} {p q : Packet Hdr} {e : Entry (Packet Hdr)}
    {trace : List (Lookup (Packet Hdr))} (h : p.reg1 = 0 ∧ control t)
    (hq : Looked learned default t p q) (he : best q (tables (2 * t + 1)) = some e)
    (hgoto : e.goto = some (2 * t')) (hlt : t < t')
    (hpath : Path t' (e.acts.foldl Act.apply q) trace) :
    Path t p (⟨2 * t, p, true⟩ :: ⟨2 * t, setReg1 1 p, false⟩ :: ⟨2 * t + 1, q, false⟩ :: trace)

end Path

variable {trace : List (Lookup (Packet Hdr))}

section Exec

variable {learned} {tables : Tables (Packet Hdr)} {control default : Nat → Prop}
  (hs : StageTables learned tables control default)

include hs

/-- A marked packet is looked up in the state table and nowhere else. -/
theorem exec_marked (t : Nat) (p : Packet Hdr) : ∃ q, Looked learned default t p q ∧
    ∀ depth entered, exec tables (depth + 1) entered (2 * t) (setReg1 1 p) =
      some (q, [⟨2 * t, setReg1 1 p, entered⟩]) := by
  cases hl : findLearned learned t p.hdr with
  | some l =>
    refine ⟨_, .hit hl, fun depth entered => ?_⟩
    exact exec_stay (best_hit hs (p := setReg1 1 p) rfl hl) rfl rfl
  | none =>
    by_cases hd : default t
    · refine ⟨_, .default hl hd, fun depth entered => ?_⟩
      exact exec_stay (best_default hs (p := setReg1 1 p) rfl hl hd) rfl rfl
    · refine ⟨_, .miss hl hd, fun depth entered => ?_⟩
      exact exec_miss (best_miss hs (p := setReg1 1 p) rfl hl hd)

variable {t : Nat} {p : Packet Hdr}

/-- The control entry looks the packet up in the state table, then in the flow table. -/
theorem exec_control {depth : Nat} {q r : Packet Hdr} {v : Lookup (Packet Hdr)}
    (h : p.reg1 = 0 ∧ control t)
    (hstate : exec tables depth false (2 * t) (setReg1 1 p) = some (q, [v]))
    (hflow : exec tables depth false (2 * t + 1) q = some (r, trace)) :
    exec tables (depth + 1) true (2 * t) p = some (r, ⟨2 * t, p, true⟩ :: v :: trace) := by
  refine exec_stay (best_control hs h.1 h.2) rfl ?_
  simp [controlEntry, runActs, hstate, hflow]

theorem exec_stop (h : ¬(p.reg1 = 0 ∧ control t)) :
    ∃ q, ∀ depth, exec tables (depth + 1) true (2 * t) p = some (q, [⟨2 * t, p, true⟩]) := by
  by_cases hp : p.reg1 = 1
  · obtain ⟨q, -, hexec⟩ := exec_marked hs t p
    have hmark : setReg1 1 p = p := by rw [setReg1, ← hp]
    rw [hmark] at hexec
    exact ⟨q, fun depth => hexec depth true⟩
  · exact ⟨p, fun depth => exec_miss (best_stop hs hp h)⟩

/-- The tables take a packet along its path. -/
theorem exec_path (ht : t < 128) (p : Packet Hdr) :
    ∃ q trace, Path learned tables control default t p trace ∧
      ∀ depth, 2 * (128 - t) ≤ depth → exec tables depth true (2 * t) p = some (q, trace) := by
  -- stages only go to later stages, of which there are finitely many
  induction hn : 128 - t using Nat.strongRecOn generalizing t p with
  | ind n ih =>
    by_cases hc : p.reg1 = 0 ∧ control t
    · obtain ⟨q, hq, hstate⟩ := exec_marked hs t p
      -- it is enough to follow the packet from the flow table on
      suffices hflow : ∃ r trace,
          Path learned tables control default t p
            (⟨2 * t, p, true⟩ :: ⟨2 * t, setReg1 1 p, false⟩ :: trace) ∧
          ∀ depth, 2 * (128 - t) ≤ depth + 2 →
            exec tables (depth + 1) false (2 * t + 1) q = some (r, trace) by
        obtain ⟨r, trace, hpath, hflow⟩ := hflow
        refine ⟨r, _, hpath, fun depth hdepth => ?_⟩
        obtain ⟨d, rfl⟩ : ∃ d, depth = d + 2 := ⟨depth - 2, by omega⟩
        exact exec_control hs hc (hstate d false) (hflow d (by omega))
      cases he : best q (tables (2 * t + 1)) with
      | none =>
        refine ⟨q, _, .last hc hq fun e h => ?_, fun depth _ => exec_miss he⟩
        rw [he] at h
        cases h
      | some e =>
        have hmem := (best_eq_some he).1
        have hacts (depth : Nat) :=
          runActs_effects (exec tables depth false) (hs.effects t e hmem) q
        cases hg : e.goto with
        | none =>
          refine ⟨_, _, .last hc hq fun e' h => ?_, fun depth _ => exec_stay he hg (hacts depth)⟩
          rw [he] at h
          cases h
          exact hg
        | some g =>
          obtain ⟨t', rfl, hlt, ht'⟩ := hs.goto t e hmem g hg
          obtain ⟨r, trace, hpath, hexec⟩ :=
            ih (128 - t') (by omega) ht' (e.acts.foldl Act.apply q) rfl
          refine ⟨r, _, .next hc hq he hg hlt hpath, fun depth hdepth => ?_⟩
          exact exec_goto he hg (hacts depth) (hexec depth (by omega))
    · obtain ⟨q, hexec⟩ := exec_stop hs hc
      refine ⟨q, _, .stop hc, fun depth hdepth => ?_⟩
      obtain ⟨d, rfl⟩ : ∃ d, depth = d + 1 := ⟨depth - 1, by omega⟩
      exact hexec d

end Exec

/-! ## When flow tables are consulted -/

/-- The flow table behind the entered state table is looked up once on the whole way, with the state
of the packet in the first register. -/
def Consulted (trace : List (Lookup (Packet Hdr))) (v : Lookup (Packet Hdr)) : Prop :=
  ∃ w, trace.filter (fun w => w.table == v.table + 1) = [w] ∧
    w.packet.reg0 = stateOf learned (v.table / 2) v.packet.hdr

def Hit (v : Lookup (Packet Hdr)) : Prop :=
  (findLearned learned (v.table / 2) v.packet.hdr).isSome

/-- The packet comes in unmarked, the control entry is there, and the state is loaded or the
register is zero anyway. -/
def Ready (control default : Nat → Prop) (v : Lookup (Packet Hdr)) : Prop :=
  v.packet.reg1 = 0 ∧ control (v.table / 2) ∧
    (Hit learned v ∨ default (v.table / 2) ∨ v.packet.reg0 = 0)

section Consulted

variable {learned} {tables : Tables (Packet Hdr)} {control default : Nat → Prop} {p q : Packet Hdr}
  {t : Nat}

theorem Looked.reg0_iff (h : Looked learned default t p q) :
    q.reg0 = stateOf learned t p.hdr ↔
      (findLearned learned t p.hdr).isSome ∨ default t ∨ p.reg0 = 0 := by
  cases h with
  | hit hl => simp [stateOf, hl]
  | default hl hd => simp [stateOf, hl, hd]
  | miss hl hd => simp [stateOf, hl, hd]

theorem Path.le_table (h : Path learned tables control default t p trace) :
    ∀ v ∈ trace, 2 * t ≤ v.table := by
  induction h with
  | stop h => simp
  | last h hq hflow => simp
  | next h hq he hgoto hlt hpath ih =>
    intro v hv
    simp only [mem_cons] at hv
    rcases hv with rfl | rfl | rfl | hv
    · exact Nat.le_refl _
    · exact Nat.le_refl _
    · exact Nat.le_succ _
    · have := ih v hv
      omega

/-- The state table comes first. -/
theorem Path.head (h : Path learned tables control default t p trace) :
    ∃ rest, trace = ⟨2 * t, p, true⟩ :: rest := by
  cases h <;> exact ⟨_, rfl⟩

/-- In a stage that takes the packet in, the first lookup is served exactly when it is ready. -/
theorem consulted_first {rest : List (Lookup (Packet Hdr))} (h : p.reg1 = 0 ∧ control t)
    (hq : Looked learned default t p q) (hrest : ∀ v ∈ rest, 2 * t + 1 < v.table) :
    Consulted learned (⟨2 * t, p, true⟩ :: ⟨2 * t, setReg1 1 p, false⟩ :: ⟨2 * t + 1, q, false⟩ ::
        rest) ⟨2 * t, p, true⟩ ↔ Ready learned control default ⟨2 * t, p, true⟩ := by
  have hfilter : rest.filter (fun w => w.table == 2 * t + 1) = [] := by
    rw [filter_eq_nil_iff]
    intro v hv heq
    have := hrest v hv
    simp at heq
    omega
  have hdiv : 2 * t / 2 = t := by omega
  simp only [Consulted, Ready, Hit, hdiv, filter_cons, hfilter]
  simp [h, hq.reg0_iff]

/-- Lookups in earlier tables do not matter to a later stage. -/
theorem consulted_later {before trace : List (Lookup (Packet Hdr))} {v : Lookup (Packet Hdr)}
    (h : ∀ w ∈ before, w.table < v.table + 1) :
    Consulted learned (before ++ trace) v ↔ Consulted learned trace v := by
  have hfilter : before.filter (fun w => w.table == v.table + 1) = [] := by
    rw [filter_eq_nil_iff]
    intro w hw heq
    have := h w hw
    simp at heq
    omega
  rw [Consulted, Consulted, filter_append, hfilter, nil_append]

/-- Every stage on the way consults its flow table once with the state of the packet exactly when
the packet enters every stage ready. -/
theorem Path.consulted_iff (h : Path learned tables control default t p trace) :
    (∀ v ∈ trace, v.entered → Consulted learned trace v) ↔
      ∀ v ∈ trace, v.entered → Ready learned control default v := by
  induction h with
  | @stop t p h =>
    have hdiv : 2 * t / 2 = t := by omega
    have hno : ¬Consulted learned [⟨2 * t, p, true⟩] ⟨2 * t, p, true⟩ := by
      rintro ⟨w, hw, -⟩
      simp at hw
    have hnr : ¬Ready learned control default ⟨2 * t, p, true⟩ := by
      rintro ⟨h0, hc, -⟩
      rw [hdiv] at hc
      exact h ⟨h0, hc⟩
    simp [hno, hnr]
  | last h hq hflow =>
    have hfirst := consulted_first h hq fun v (hv : v ∈ []) => nomatch hv
    simp [hfirst]
  | @next t t' p q e trace h hq he hgoto hlt hpath ih =>
    have hle := hpath.le_table
    have hfirst := consulted_first h hq fun v hv => by
      have := hle v hv
      omega
    have hlater : ∀ v ∈ trace, Consulted learned
        (⟨2 * t, p, true⟩ :: ⟨2 * t, setReg1 1 p, false⟩ :: ⟨2 * t + 1, q, false⟩ :: trace) v ↔
          Consulted learned trace v := by
      intro v hv
      have := hle v hv
      show Consulted learned ([⟨2 * t, p, true⟩, ⟨2 * t, setReg1 1 p, false⟩,
        ⟨2 * t + 1, q, false⟩] ++ trace) v ↔ _
      refine consulted_later fun w hw => ?_
      simp only [mem_cons, not_mem_nil, or_false] at hw
      rcases hw with rfl | rfl | rfl <;> simp only <;> omega
    have hrest :=
      forall₂_congr fun v hv => imp_congr_right (a := v.entered = true) fun _ => hlater v hv
    simp only [forall_mem_cons, hfirst, forall_const, Bool.false_eq_true, false_implies, true_and,
      hrest, ih]

/-! ## Lookups that miss -/

/-- The state tables that a packet enters on its way, in order. -/
def entries (trace : List (Lookup (Packet Hdr))) : List (Lookup (Packet Hdr)) :=
  trace.filter (·.entered)

theorem Path.entries_ne_nil
    (h : Path learned tables control default t p trace) : entries trace ≠ [] := by
  obtain ⟨rest, rfl⟩ := h.head
  simp [entries]

/-- The mark is taken off by learned entries only. -/
theorem Looked.reg1_iff (h : Looked learned default t p q) :
    q.reg1 = 0 ↔ (findLearned learned t p.hdr).isSome := by
  cases h with
  | hit hl => simp [hl]
  | default hl hd => simp [hl]
  | miss hl hd => simp [hl]

/-- When the flow tables leave the mark alone and every goto leads to a stage with a control entry,
a packet that comes in unmarked enters every stage ready exactly when every stage it leaves had a
learned state for it, and every stage loads its state or finds the register zero. -/
theorem Path.ready_iff
    (hmark : ∀ t q e, best q (tables (2 * t + 1)) = some e →
      (e.acts.foldl Act.apply q).reg1 = q.reg1)
    (hgoto : ∀ t q e t', best q (tables (2 * t + 1)) = some e → e.goto = some (2 * t') → control t')
    (h : Path learned tables control default t p trace) (hp : p.reg1 = 0) (hc : control t) :
    (∀ v ∈ trace, v.entered → Ready learned control default v) ↔
      (∀ v ∈ (entries trace).dropLast, Hit learned v) ∧
        ∀ v ∈ entries trace, Hit learned v ∨ default (v.table / 2) ∨ v.packet.reg0 = 0 := by
  induction h with
  | stop h => exact absurd ⟨hp, hc⟩ h
  | @last t p q h hq hflow =>
    have hdiv : 2 * t / 2 = t := by omega
    simp [entries, Ready, hp, hc, hdiv]
  | @next t t' p q e trace h hq he hg hlt hpath ih =>
    have hdiv : 2 * t / 2 = t := by omega
    set v : Lookup (Packet Hdr) := ⟨2 * t, p, true⟩
    have hentries : entries (v :: ⟨2 * t, setReg1 1 p, false⟩ :: ⟨2 * t + 1, q, false⟩ :: trace) =
        v :: entries trace := by simp [entries, v]
    have hready : Ready learned control default v ↔
        Hit learned v ∨ default (v.table / 2) ∨ v.packet.reg0 = 0 := by
      simp [Ready, v, hp, hc, hdiv]
    rw [hentries, dropLast_cons_of_ne_nil hpath.entries_ne_nil]
    simp only [forall_mem_cons, Bool.false_eq_true, false_implies, true_and]
    have hnext : (e.acts.foldl Act.apply q).reg1 = 0 ↔ Hit learned v := by
      rw [hmark t q e he, hq.reg1_iff, Hit, hdiv]
    by_cases hhit : Hit learned v
    · rw [ih (hnext.2 hhit) (hgoto t q e t' he hg), hready]
      simp [hhit, v]
    · -- the packet arrives marked at the next stage
      refine ⟨fun hall => absurd ?_ hhit, fun hall => absurd hall.1.1 hhit⟩
      obtain ⟨rest, rfl⟩ := hpath.head
      exact hnext.1 (hall.2 _ mem_cons_self rfl).1

end Consulted

end Stage

end BebaCtrl
