import BebaCtrl.Lib.Dict
import Mathlib.Logic.Hydra

/-!
# Loading applications

`load_apps` works through a list of names. It loads the class of each name and appends the services
the class depends on, unless they are still in the list. What was loaded before is not looked at, so
a service is loaded as often as there are chains of dependencies to it, and never to an end when two
applications depend on each other.
-/

namespace BebaCtrl.LoadApps

open List Dict

/-- The application class of a module. `services` has the `_SERVICE_NAME` of the modules of the
event classes it has handlers for, if they have one; there are no contexts. -/
structure AppCls where
  module : String
  services : List (Option String)
  requiredApp : List String
  deriving DecidableEq, Repr

/-- The modules that can be imported, with the class `load_app` finds in them, and the order in
which Python lists the elements of a set. -/
structure Modules where
  cls : Dict String (Option AppCls)
  order : List String → List String
  mem_order : ∀ {names s}, s ∈ order names ↔ s ∈ names

variable (m : Modules)

def getDependentServices (cls : AppCls) : List String :=
  let services := cls.services.filterMap fun service =>
    service.filter fun s => s ≠ "" ∧ cls.module ≠ s
  m.order (services ++ cls.requiredApp)

def loadApp (name : String) : PyResult (Option AppCls) :=
  match m.cls.lookup name with
  | none => .error (.other "ImportError")
  | some cls => .ok cls

/-- The loop, which is still running after `n` rounds when the result is `none`. -/
def loop : Nat → List String → Dict String AppCls → Option (PyResult (Dict String AppCls))
  | _, [], applicationsCls => some (.ok applicationsCls)
  | 0, _ :: _, _ => none
  | n + 1, name :: appLists, applicationsCls =>
    match loadApp m name with
    | .error e => some (.error e)
    | .ok none => loop n appLists applicationsCls
    | .ok (some cls) =>
      loop n (appLists ++ (m.order (getDependentServices m cls)).filter (· ∉ appLists))
        (applicationsCls.insert name cls)

/-- The arguments are given as their parts, as `split(',')` has them. -/
def loadApps (n : Nat) (appLists : List (List String)) : Option (PyResult (Dict String AppCls)) :=
  loop m n appLists.flatten ∅

/-! ## Dependencies -/

def deps (name : String) : List String :=
  match m.cls.lookup name with
  | some (some cls) => getDependentServices m cls
  | _ => []

def Dep (a b : String) : Prop := b ∈ deps m a

/-- One of the names depends on `x`, through any number of applications. -/
def Reachable (names : List String) (x : String) : Prop :=
  ∃ a ∈ names, Relation.ReflTransGen (Dep m) a x

/-- The loop ends, and the applications are those that can be reached. -/
def Meets (appLists : List (List String)) : Prop :=
  ∃ n applicationsCls, loadApps m n appLists = some (.ok applicationsCls) ∧
    ∀ x cls, applicationsCls.lookup x = some cls ↔
      Reachable m appLists.flatten x ∧ m.cls.lookup x = some (some cls)

/-- The name and all it depends on can be loaded, with finitely many chains of dependencies. -/
inductive Loads : String → Prop where
  | intro {a} : a ∈ m.cls → (∀ b, Dep m a b → Loads b) → Loads a

variable {m} {a b x : String} {names : List String}

theorem Loads.of_reflTransGen (h : Loads m a) (hab : Relation.ReflTransGen (Dep m) a b) :
    Loads m b := by
  induction hab with
  | refl => exact h
  | tail _ hdep ih =>
    cases ih with
    | intro _ hdeps => exact hdeps _ hdep

theorem Loads.not_transGen (h : Loads m a) : ¬Relation.TransGen (Dep m) a a := by
  induction h with
  | intro _ _ ih =>
    intro hcycle
    obtain ⟨b, hdep, hback⟩ := Relation.TransGen.head'_iff.1 hcycle
    exact ih b hdep (.tail' hback hdep)

/-- Among finitely many modules only a cycle makes endless chains. -/
theorem loads_of_acyclic (hmem : ∀ x, Reachable m names x → x ∈ m.cls)
    (hacyclic : ∀ x, Reachable m names x → ¬Relation.TransGen (Dep m) x x)
    (hx : Reachable m names x) : Loads m x := by
  let Node := {x // Reachable m names x}
  have : Finite Node :=
    (m.cls.keys.finite_toSet.subset fun x hx => AList.mem_keys.1 (hmem x hx)).to_subtype
  let below : Node → Node → Prop := fun b a => Relation.TransGen (Dep m) a.1 b.1
  have : Std.Irrefl below := ⟨fun a => hacyclic a.1 a.2⟩
  have hwf : WellFounded below := Finite.wellFounded_of_trans_of_irrefl below
  suffices h : ∀ y : Node, Loads m y.1 from h ⟨x, hx⟩
  intro y
  induction y using hwf.induction with
  | _ y ih =>
    obtain ⟨a, ha, hreach⟩ := y.2
    exact .intro (hmem y.1 y.2) fun b hdep => ih ⟨b, a, ha, hreach.tail hdep⟩ (.single hdep)

/-! ## The loop -/

variable (m) in
/-- A dependency of an application that can be loaded. -/
def Below (b a : String) : Prop := Loads m a ∧ Dep m a b

instance : Std.Irrefl (Below m) := ⟨fun _ h => h.1.not_transGen (.single h.2)⟩

theorem Loads.acc (h : Loads m a) : Acc (Below m) a := by
  induction h with
  | intro _ _ ih => exact .intro _ fun b hb => ih b hb.2

variable (m) in
/-- The list after the round for the name in front of it. -/
def next (name : String) (names : List String) : List String :=
  names ++ (m.order (deps m name)).filter (· ∉ names)

theorem mem_next : b ∈ next m a names ↔ b ∈ names ∨ Dep m a b := by
  simp only [next, mem_append, mem_filter, m.mem_order, decide_eq_true_eq, Dep]
  tauto

theorem loop_cons {cls : Option AppCls} (h : m.cls.lookup a = some cls) (n : Nat)
    (apps : Dict String AppCls) :
    loop m (n + 1) (a :: names) apps =
      loop m n (next m a names) (cls.elim apps fun cls => apps.insert a cls) := by
  cases cls with
  | none =>
    have hnone : m.order [] = [] := eq_nil_iff_forall_not_mem.2 fun s hs => by
      simpa using m.mem_order.1 hs
    simp [loop, loadApp, h, next, deps, hnone]
  | some cls => simp [loop, loadApp, h, next, deps]

/-- A round replaces a name by names below it. -/
theorem loop_ends (hnames : ∀ a ∈ names, Loads m a) (apps : Dict String AppCls) :
    ∃ n apps', loop m n names apps = some (.ok apps') := by
  have hacc : Acc (Relation.CutExpand (Below m)) (names : Multiset String) :=
    Relation.acc_of_singleton fun a ha => (hnames a (by simpa using ha)).acc.cutExpand
  generalize hs : (names : Multiset String) = s at hacc
  induction hacc generalizing names apps with
  | intro s _ ih =>
    cases names with
    | nil => exact ⟨0, apps, rfl⟩
    | cons name names =>
      obtain ⟨hname, hrest⟩ := forall_mem_cons.1 hnames
      have hcut : Relation.CutExpand (Below m) (next m name names : Multiset String) s := by
        refine ⟨↑((m.order (deps m name)).filter (· ∉ names)), name, fun b hb => ?_, ?_⟩
        · simp only [Multiset.mem_coe, mem_filter, m.mem_order] at hb
          exact ⟨hname, hb.1⟩
        · rw [← hs, next, ← Multiset.coe_add, ← Multiset.cons_coe, ← Multiset.singleton_add]
          ac_rfl
      cases hname with
      | intro hmem hdeps =>
        obtain ⟨cls, hcls⟩ := mem_iff_lookup.1 hmem
        obtain ⟨n, apps', hn⟩ := ih _ hcut
          (fun b hb => (mem_next.1 hb).elim (hrest b) (hdeps b)) _ rfl
        exact ⟨n + 1, apps', (loop_cons hcls n apps).trans hn⟩

theorem reachable_cons : Reachable m (a :: names) x ↔ x = a ∨ Reachable m (next m a names) x := by
  constructor
  · rintro ⟨y, hy, hyx⟩
    rcases mem_cons.1 hy with rfl | hy
    · rcases hyx.cases_head with rfl | ⟨z, hyz, hzx⟩
      · exact .inl rfl
      · exact .inr ⟨z, mem_next.2 (.inr hyz), hzx⟩
    · exact .inr ⟨y, mem_next.2 (.inl hy), hyx⟩
  · rintro (rfl | ⟨y, hy, hyx⟩)
    · exact ⟨x, by simp, .refl⟩
    · rcases mem_next.1 hy with hy | hy
      · exact ⟨y, by simp [hy], hyx⟩
      · exact ⟨a, by simp, .head hy hyx⟩

/-- What a loop that ends has loaded. -/
theorem loop_spec {n : Nat} {apps apps' : Dict String AppCls}
    (h : loop m n names apps = some (.ok apps'))
    (happs : ∀ x cls, apps.lookup x = some cls → m.cls.lookup x = some (some cls)) :
    (∀ a ∈ names, Loads m a) ∧ ∀ x cls, apps'.lookup x = some cls ↔
      Reachable m names x ∧ m.cls.lookup x = some (some cls) ∨ apps.lookup x = some cls := by
  induction n generalizing names apps with
  | zero =>
    cases names with
    | nil =>
      cases h
      simp [Reachable]
    | cons => cases h
  | succ n ih =>
    cases names with
    | nil =>
      cases h
      simp [Reachable]
    | cons name names =>
      cases hcls : m.cls.lookup name with
      | none => simp [loop, loadApp, hcls] at h
      | some cls =>
        rw [loop_cons hcls] at h
        obtain ⟨hloads, hlookup⟩ := ih h (by
          cases cls <;> grind [lookup_insert])
        refine ⟨forall_mem_cons.2 ⟨?_, fun b hb => hloads b (mem_next.2 (.inl hb))⟩, ?_⟩
        · exact .intro (mem_of_lookup hcls) fun b hb => hloads b (mem_next.2 (.inr hb))
        · intro x cls'
          rw [hlookup, reachable_cons]
          cases cls <;> grind [lookup_insert]

/-- The applications that can be reached are loaded just when all of them can be imported and none
of them depends on itself. -/
theorem meets_iff_acyclic (m : Modules) (appLists : List (List String)) :
    Meets m appLists ↔ ∀ x, Reachable m appLists.flatten x →
      x ∈ m.cls ∧ ¬Relation.TransGen (Dep m) x x := by
  constructor
  · rintro ⟨n, apps, hn, -⟩ x ⟨a, ha, hax⟩
    have hx := ((loop_spec hn (by simp)).1 a ha).of_reflTransGen hax
    refine ⟨?_, hx.not_transGen⟩
    cases hx with
    | intro hmem _ => exact hmem
  · intro h
    obtain ⟨n, apps, hn⟩ := loop_ends (fun a ha => loads_of_acyclic (fun x hx => (h x hx).1)
      (fun x hx => (h x hx).2) ⟨a, ha, .refl⟩) ∅
    refine ⟨n, apps, hn, fun x cls => ?_⟩
    rw [(loop_spec hn (by simp)).2]
    simp

/-- Two applications that require each other. -/
def mutualApps : Modules where
  cls := (∅ : Dict String (Option AppCls)).insert "a" (some ⟨"a", [], ["b"]⟩) |>.insert "b"
    (some ⟨"b", [], ["a"]⟩)
  order := dedup
  mem_order := mem_dedup

theorem not_meets_mutualApps : ¬Meets mutualApps [["a"]] := by
  rintro ⟨n, apps, hn, -⟩
  have hloads := (loop_spec hn (by simp)).1 "a" (by simp)
  have hab : "b" ∈ deps mutualApps "a" := by decide
  have hba : "a" ∈ deps mutualApps "b" := by decide
  exact hloads.not_transGen (.tail (.single hab) hba)

end BebaCtrl.LoadApps
