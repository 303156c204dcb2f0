import Mathlib.Data.Finset.Basic
import BebaCtrl.Lib.Dict
import BebaCtrl.Lib.History
import BebaCtrl.Lib.State

/-!
# Routing of events between applications

The handlers of an application are its methods decorated by `set_ev_cls`. `AppManager` registers the
application as an observer with every application that provides one of its event classes. An event
goes to the queues of the observers and from there to the handlers.

A dispatcher list says in which states of a datapath a handler takes its events; the empty list
means all of them. It is tested twice: `get_observers` tests the union of the lists of an
application, and `get_handlers` the list of each handler.
-/

namespace BebaCtrl

open List PyM Dict

namespace AppManager

/-! ### Declarations -/

/-- The parts of a dotted module name. -/
abbrev ModuleName := List String

structure EvCls where
  module : ModuleName
  name : String
  deriving DecidableEq, Repr

/-- An event is one object; `id` tells the events of one class apart. -/
structure Event where
  cls : EvCls
  id : Nat
  deriving DecidableEq, Repr

/-- `_Caller` -/
structure Caller where
  dispatchers : List String
  evSource : Option ModuleName
  deriving DecidableEq, Repr

/-- The decorators of handlers, with the arguments after `_listify`. -/
inductive Decorator where
  | setEvCls (evCls : List EvCls) (dispatchers : List String)
  | setEvHandler (evCls : List EvCls) (dispatchers : List String)
  deriving DecidableEq, Repr

/-- `_set_ev_cls_dec` -/
def Decorator.apply (callers : Dict EvCls Caller) : Decorator → Dict EvCls Caller
  | .setEvCls es dispatchers =>
    es.foldl (fun callers e => callers.insert e ⟨dispatchers, some e.module⟩) callers
  | .setEvHandler es dispatchers =>
    es.foldl (fun callers e => callers.insert e ⟨dispatchers, none⟩) callers

/-- A method of an application, with its decorators in the order they are applied. -/
structure Method where
  name : String
  decorators : List Decorator
  deriving DecidableEq, Repr

def Method.callers (m : Method) : Dict EvCls Caller := m.decorators.foldl Decorator.apply ∅

/-- An instance of a `RyuApp`: its `name`, `_EVENTS` and its methods as `inspect.getmembers` lists
them. -/
structure App where
  name : String
  events : List EvCls
  methods : List Method
  deriving DecidableEq, Repr

/-- `register_instance`, with the calls of `register_handler` it makes. -/
def registerInstance (app : App) : Dict EvCls (List Method) :=
  app.methods.foldl
    (fun handlers m => m.callers.keys.foldl (fun handlers e => handlers.push e m) handlers) ∅

/-! ### Bricks -/

/-- The attributes of a loaded application. `calls` are the handler calls its event loop has made.
-/
structure Brick where
  app : App
  eventHandlers : Dict EvCls (List Method) := ∅
  observers : Dict EvCls (Dict String (Finset String)) := ∅
  events : List (Event × Option String) := []
  calls : List (Method × Event) := []

namespace Brick

def new (app : App) : Brick := { app, eventHandlers := registerInstance app }

def registerObserver (b : Brick) (e : EvCls) (name : String) (states : List String) : Brick :=
  let observers := (b.observers.lookup e).getD ∅
  let old := (observers.lookup name).getD ∅
  { b with observers := b.observers.insert e (observers.insert name (old ∪ states.toFinset)) }

def getHandlers (b : Brick) (ev : Event) (state : Option String) : List Method :=
  match state with
  | none => b.eventHandlers.bucket ev.cls
  | some state =>
    (b.eventHandlers.bucket ev.cls).filter fun h =>
      match h.callers.lookup ev.cls with
      | none => true
      | some c => c.dispatchers = [] ∨ state ∈ c.dispatchers

/-- The test of `get_observers`. The empty string is as false as `None`. -/
def Interested (state : Option String) (states : Finset String) : Prop :=
  state.getD "" = "" ∨ states = ∅ ∨ state.getD "" ∈ states

instance {state : Option String} {states : Finset String} : Decidable (Interested state states) :=
  inferInstanceAs (Decidable (_ ∨ _ ∨ _))

def getObservers (b : Brick) (ev : Event) (state : Option String) : List String :=
  (((b.observers.lookup ev.cls).getD ∅).entries.filter fun o => Interested state o.2).map Sigma.fst

/-- `_send_event` -/
def sendEvent (ev : Event) (state : Option String) (b : Brick) : Brick :=
  { b with events := b.events ++ [(ev, state)] }

def callsOf (b : Brick) (item : Event × Option String) : List (Method × Event) :=
  (b.getHandlers item.1 item.2).map fun handler => (handler, item.1)

/-- One turn of `_event_loop`. -/
def handleEvent (b : Brick) : Brick :=
  match b.events with
  | [] => b
  | item :: rest => { b with events := rest, calls := b.calls ++ b.callsOf item }

/-- `_event_loop` until the queue is empty. -/
def eventLoop (b : Brick) : Brick := b.events.foldl (fun b _ => b.handleEvent) b

end Brick

/-! ### The manager -/

/-- `SERVICE_BRICKS` -/
abbrev Bricks := Dict String Brick

def registerApp (app : App) : PyM Bricks Unit := do
  let bricks ← get
  pyAssert (app.name ∉ bricks)
  modify fun bricks => bricks.insert app.name (Brick.new app)

/-- The last part of a module name, under which `_lookup_service_brick_by_mod_name` looks. -/
def base (modName : ModuleName) : String := modName.getLastD ""

/-- The body of the loops of `_update_bricks`. -/
def updateObservers (name : String) (e : EvCls) (c : Caller) (bricks : Bricks) : Bricks :=
  match c.evSource with
  | none => bricks
  | some evSource =>
    (bricks.alter (base evSource) fun b => b.registerObserver e name c.dispatchers).mapValues
      fun b => if e ∈ b.app.events then b.registerObserver e name c.dispatchers else b

def updateBricks (bricks : Bricks) : Bricks :=
  bricks.values.foldl
    (fun bricks i => i.app.methods.foldl
      (fun bricks m => m.callers.entries.foldl
        (fun bricks c => updateObservers i.app.name c.1 c.2 bricks) bricks) bricks) bricks

/-- `create_contexts` and `instantiate_apps`, for the applications in the order they are made. -/
def instantiateApps (apps : List App) : PyM Bricks Unit := do
  apps.forM registerApp
  modify updateBricks

/-! ### Runs -/

def sendEventToObservers (src : String) (ev : Event) (state : Option String) (bricks : Bricks) :
    Bricks :=
  match bricks.lookup src with
  | none => bricks
  | some b =>
    (b.getObservers ev state).foldl
      (fun bricks observer => bricks.alter observer (Brick.sendEvent ev state)) bricks

/-- An application sends an event to its observers, or the event loop of an application makes a
turn. -/
inductive Action where
  | send (src : String) (ev : Event) (state : Option String)
  | handle (name : String)
  deriving DecidableEq, Repr

def step (bricks : Bricks) : Action → Bricks
  | .send src ev state => sendEventToObservers src ev state bricks
  | .handle name => bricks.alter name Brick.handleEvent

def run (bricks : Bricks) (actions : List Action) : Bricks := actions.foldl step bricks

/-! ### Handlers -/

variable {m : Method} {e : EvCls}

theorem bucket_foldl_push {es : List EvCls} (hes : es.Nodup) (handlers : Dict EvCls (List Method)) :
    (es.foldl (fun handlers e => handlers.push e m) handlers).bucket e =
      handlers.bucket e ++ if e ∈ es then [m] else [] := by
  induction es generalizing handlers with
  | nil => simp
  | cons e' es ih =>
    obtain ⟨he', hes⟩ := nodup_cons.1 hes
    rw [foldl_cons, ih hes, bucket_push]
    grind

theorem bucket_registerInstance (app : App) (e : EvCls) :
    (registerInstance app).bucket e = app.methods.filter fun m => e ∈ m.callers := by
  suffices h : ∀ (ms : List Method) (handlers : Dict EvCls (List Method)),
      (ms.foldl (fun handlers m => m.callers.keys.foldl (fun handlers e => handlers.push e m)
        handlers) handlers).bucket e = handlers.bucket e ++ ms.filter fun m => e ∈ m.callers from
    h app.methods ∅
  intro ms
  induction ms with
  | nil => simp
  | cons m ms ih =>
    intro handlers
    rw [foldl_cons, ih, bucket_foldl_push m.callers.keys_nodup]
    by_cases h : e ∈ m.callers
    · simp [h, AList.mem_keys.1 h]
    · simp [h, mt AList.mem_keys.2 h]

/-! ### Observers -/

variable {c : Caller}

namespace Brick

variable {b : Brick} {e e' : EvCls} {name name' : String}

/-- The states under which an application is registered for an event class. -/
def observed (b : Brick) (e : EvCls) (name : String) : Option (Finset String) :=
  (b.observers.lookup e).bind fun observers => observers.lookup name

theorem observed_registerObserver {states : List String} :
    (b.registerObserver e name states).observed e' name' =
      if e' = e ∧ name' = name then some ((b.observed e name).getD ∅ ∪ states.toFinset)
      else b.observed e' name' := by
  simp only [observed, registerObserver, lookup_insert]
  by_cases he : e' = e
  · subst he
    simp only [if_true, true_and, Option.bind_some, lookup_insert]
    cases b.observers.lookup e' <;> simp
  · simp [he]

/-- What one turn of the loops of `_update_bricks` does to the application called `k`. -/
def update (k name : String) (e : EvCls) (c : Caller) (b : Brick) : Brick :=
  match c.evSource with
  | none => b
  | some evSource =>
    let b := if k = base evSource then b.registerObserver e name c.dispatchers else b
    if e ∈ b.app.events then b.registerObserver e name c.dispatchers else b

/-- The application called `k` is one that the declaration names as the source of its events. -/
def IsSource (k : String) (events : List EvCls) (e : EvCls) (c : Caller) : Prop :=
  ∃ evSource, c.evSource = some evSource ∧ (k = base evSource ∨ e ∈ events)

variable {k : String}

theorem update_eq : ∃ observers, b.update k name e c = { b with observers := observers } := by
  unfold update
  split
  · exact ⟨_, rfl⟩
  · dsimp only
    split_ifs <;> exact ⟨_, rfl⟩

theorem app_update : (b.update k name e c).app = b.app := by
  obtain ⟨observers, h⟩ := update_eq
  rw [h]

theorem update_of_not_isSource (h : ¬IsSource k b.app.events e c) :
    b.update k name e c = b := by
  unfold update
  split
  · rfl
  · grind [IsSource]

theorem observed_update (h : IsSource k b.app.events e c) :
    (b.update k name e c).observed e' name' =
      if e' = e ∧ name' = name then some ((b.observed e name).getD ∅ ∪ c.dispatchers.toFinset)
      else b.observed e' name' := by
  obtain ⟨evSource, hc, hsource⟩ := h
  have happ : (b.registerObserver e name c.dispatchers).app = b.app := rfl
  simp only [update, hc]
  by_cases hk : k = base evSource <;> by_cases he : e ∈ b.app.events
  · -- registered twice, under the name and for `_EVENTS`
    simp only [hk, he, happ, if_true, observed_registerObserver]
    grind
  · simp [hk, he, happ, observed_registerObserver]
  · simp [hk, he, observed_registerObserver]
  · exact absurd hsource (by simp [hk, he])

end Brick

/-- A handler of the application `name`, as `_update_bricks` finds it. -/
structure Declaration where
  name : String
  evCls : EvCls
  caller : Caller

def declarations (is : List Brick) : List Declaration :=
  is.flatMap fun i => i.app.methods.flatMap fun m =>
    m.callers.entries.map fun c => ⟨i.app.name, c.1, c.2⟩

theorem mem_declarations {is : List Brick} {d : Declaration} : d ∈ declarations is ↔
    ∃ i ∈ is, i.app.name = d.name ∧ ∃ m ∈ i.app.methods,
      m.callers.lookup d.evCls = some d.caller := by
  obtain ⟨name, e, c⟩ := d
  simp only [declarations, mem_flatMap, mem_map, Sigma.exists, Declaration.mk.injEq, mem_entries]
  grind

theorem updateBricks_eq (bricks : Bricks) : updateBricks bricks =
    (declarations bricks.values).foldl
      (fun bricks d => updateObservers d.name d.evCls d.caller bricks) bricks := by
  simp only [updateBricks, declarations, foldl_flatMap, foldl_map]

variable {name k : String} {bricks : Bricks}

theorem lookup_updateObservers :
    (updateObservers name e c bricks).lookup k =
      (bricks.lookup k).map (Brick.update k name e c) := by
  unfold updateObservers Brick.update
  cases c.evSource with
  | none => simp
  | some evSource =>
    rw [lookup_mapValues, lookup_alter]
    split
    next h => simp [h, Function.comp_def]
    next h => simp [h]

namespace Brick

/-- All turns of the loops of `_update_bricks`, for the application called `k`. -/
def updateAll (k : String) (ds : List Declaration) (b : Brick) : Brick :=
  ds.foldl (fun b d => b.update k d.name d.evCls d.caller) b

theorem updateAll_cons {k : String} {d : Declaration} {ds : List Declaration} {b : Brick} :
    updateAll k (d :: ds) b = updateAll k ds (b.update k d.name d.evCls d.caller) := rfl

variable {k : String} {ds : List Declaration} {b : Brick} {e : EvCls} {name : String}

theorem updateAll_fields : (b.updateAll k ds).app = b.app ∧
    (b.updateAll k ds).eventHandlers = b.eventHandlers ∧ (b.updateAll k ds).events = b.events ∧
    (b.updateAll k ds).calls = b.calls := by
  induction ds generalizing b with
  | nil => exact ⟨rfl, rfl, rfl, rfl⟩
  | cons d ds ih =>
    obtain ⟨observers, h⟩ := update_eq
    rw [updateAll_cons, h]
    exact ih

theorem isSome_observed_updateAll : ((b.updateAll k ds).observed e name).isSome ↔
    (b.observed e name).isSome ∨
      ∃ d ∈ ds, d.evCls = e ∧ d.name = name ∧ IsSource k b.app.events e d.caller := by
  induction ds generalizing b with
  | nil => simp [updateAll]
  | cons d ds ih =>
    rw [updateAll_cons, ih, app_update]
    by_cases h : IsSource k b.app.events d.evCls d.caller
    · rw [observed_update h]
      grind
    · rw [update_of_not_isSource h]
      grind

theorem mem_observed_updateAll {st : String} :
    st ∈ ((b.updateAll k ds).observed e name).getD ∅ ↔ st ∈ (b.observed e name).getD ∅ ∨
      ∃ d ∈ ds, d.evCls = e ∧ d.name = name ∧ IsSource k b.app.events e d.caller ∧
        st ∈ d.caller.dispatchers := by
  induction ds generalizing b with
  | nil => simp [updateAll]
  | cons d ds ih =>
    rw [updateAll_cons, ih, app_update]
    by_cases h : IsSource k b.app.events d.evCls d.caller
    · rw [observed_update h]
      split
      next heq => simp only [Option.getD_some, Finset.mem_union, mem_toFinset]; grind
      next hne => grind
    · rw [update_of_not_isSource h]
      grind

end Brick

/-! ### The bricks of a list of applications -/

/-- Every handler is declared by `set_ev_cls`. -/
def App.UsesSetEvCls (app : App) : Prop :=
  ∀ m ∈ app.methods, ∀ d ∈ m.decorators, ∃ es dispatchers, d = .setEvCls es dispatchers

/-- The application is a source of the events of class `e`. -/
def App.Provides (app : App) (e : EvCls) : Prop := app.name = base e.module ∨ e ∈ app.events

instance {app : App} {e : EvCls} : Decidable (app.Provides e) := inferInstanceAs (Decidable (_ ∨ _))

/-- The dispatcher lists of the handlers for `e`. -/
def App.dispatchersOf (app : App) (e : EvCls) : List (List String) :=
  app.methods.filterMap fun m => (m.callers.lookup e).map Caller.dispatchers

variable {app : App}

theorem App.mem_dispatchersOf {ds : List String} :
    ds ∈ app.dispatchersOf e ↔
      ∃ m ∈ app.methods, ∃ c, m.callers.lookup e = some c ∧ c.dispatchers = ds := by
  simp [App.dispatchersOf]

theorem evSource_of_lookup (hm : ∀ d ∈ m.decorators, ∃ es dispatchers, d = .setEvCls es dispatchers)
    (h : m.callers.lookup e = some c) : c.evSource = some e.module := by
  have hinsert : ∀ (es : List EvCls) (dispatchers : List String) (callers : Dict EvCls Caller),
      (∀ e c, callers.lookup e = some c → c.evSource = some e.module) → ∀ e c,
        (es.foldl (fun callers e => callers.insert e ⟨dispatchers, some e.module⟩) callers).lookup e
          = some c → c.evSource = some e.module := by
    intro es dispatchers
    induction es with
    | nil => exact fun callers h => h
    | cons e' es ih =>
      intro callers hcallers
      refine ih _ fun e c h => ?_
      rw [lookup_insert] at h
      grind
  suffices hall : ∀ (ds : List Decorator) (callers : Dict EvCls Caller),
      (∀ d ∈ ds, ∃ es dispatchers, d = .setEvCls es dispatchers) →
      (∀ e c, callers.lookup e = some c → c.evSource = some e.module) → ∀ e c,
        (ds.foldl Decorator.apply callers).lookup e = some c → c.evSource = some e.module from
    hall m.decorators ∅ hm (by simp) e c h
  intro ds
  induction ds with
  | nil => exact fun callers _ h => h
  | cons d ds ih =>
    intro callers hds hcallers
    obtain ⟨es, dispatchers, rfl⟩ := hds d (by simp)
    exact ih _ (fun d hd => hds d (by simp [hd])) (hinsert es dispatchers callers hcallers)

/-- A brick as `instantiate_apps` leaves it, apart from its queue. -/
structure Brick.Loaded (apps : List App) (b : Brick) : Prop where
  mem : b.app ∈ apps
  bucket_eventHandlers : ∀ e, b.eventHandlers.bucket e = b.app.methods.filter fun m => e ∈ m.callers
  isSome_observed : ∀ e, ∀ app ∈ apps, (b.observed e app.name).isSome ↔
    b.app.Provides e ∧ app.dispatchersOf e ≠ []
  mem_observed : ∀ e, ∀ app ∈ apps, ∀ st, st ∈ (b.observed e app.name).getD ∅ ↔
    b.app.Provides e ∧ ∃ ds ∈ app.dispatchersOf e, st ∈ ds

structure Ready (apps : List App) (bricks : Bricks) : Prop where
  name_eq : ∀ name b, bricks.lookup name = some b → b.app.name = name
  loaded : ∀ name b, bricks.lookup name = some b → b.Loaded apps
  exists_brick : ∀ app ∈ apps, ∃ b, bricks.lookup app.name = some b ∧ b.app = app

variable {bricks' : Bricks}

theorem registerApp_eq_ok :
    registerApp app bricks = (.ok (), bricks') ↔ app.name ∉ bricks ∧
      bricks' = bricks.insert app.name (Brick.new app) := by
  rw [registerApp, PyM.bind_of_ok (PyM.get_apply bricks), PyM.bind_eq_ok]
  constructor
  · rintro ⟨_, _, hassert, heq⟩
    obtain ⟨hok, rfl⟩ := lift_eq_ok.1 hassert
    exact ⟨of_pyAssert hok, (Prod.mk.inj heq).2.symm⟩
  · rintro ⟨hnot, rfl⟩
    exact ⟨(), bricks, lift_eq_ok.2 ⟨pyAssert_pos hnot, rfl⟩, rfl⟩

theorem lookup_forM_registerApp {apps : List App}
    (h : apps.forM registerApp bricks = (.ok (), bricks')) {b : Brick} :
    bricks'.lookup name = some b ↔ bricks.lookup name = some b ∨
      ∃ app ∈ apps, app.name = name ∧ b = Brick.new app := by
  induction apps generalizing bricks with
  | nil =>
    cases h
    simp
  | cons app apps ih =>
    obtain ⟨_, s, happ, happs⟩ := PyM.bind_eq_ok.1 h
    obtain ⟨hnot, rfl⟩ := registerApp_eq_ok.1 happ
    have hnone : bricks.lookup app.name = none := AList.lookup_eq_none.2 hnot
    rw [ih happs, lookup_insert]
    grind

theorem lookup_updateBricks : (updateBricks bricks).lookup k =
    (bricks.lookup k).map (Brick.updateAll k (declarations bricks.values)) := by
  suffices h : ∀ (ds : List Declaration) (bricks : Bricks),
      (ds.foldl (fun bricks d => updateObservers d.name d.evCls d.caller bricks) bricks).lookup k =
        (bricks.lookup k).map (Brick.updateAll k ds) by
    rw [updateBricks_eq, h]
  intro ds
  induction ds with
  | nil =>
    intro bricks
    exact Option.map_id'.symm
  | cons d ds ih =>
    intro bricks
    rw [foldl_cons, ih, lookup_updateObservers, Option.map_map]
    rfl

/-- The bricks of `apps`, after `_update_bricks` has gone through the declarations `ds`. -/
structure Built (apps : List App) (ds : List Declaration) (bricks : Bricks) : Prop where
  lookup_iff : ∀ name b, bricks.lookup name = some b ↔
    ∃ app ∈ apps, app.name = name ∧ b = (Brick.new app).updateAll name ds
  declared_iff : ∀ d, d ∈ ds ↔
    ∃ app ∈ apps, app.name = d.name ∧ ∃ m ∈ app.methods, m.callers.lookup d.evCls = some d.caller

section Instantiate

variable {apps : List App} {bricks : Bricks} {ds : List Declaration}

theorem built_of_instantiateApps (h : instantiateApps apps ∅ = (.ok (), bricks)) :
    ∃ ds, Built apps ds bricks := by
  obtain ⟨_, registered, hforM, heq⟩ := PyM.bind_eq_ok.1 h
  obtain rfl := (Prod.mk.inj heq).2
  have hlookup : ∀ name b, registered.lookup name = some b ↔
      ∃ app ∈ apps, app.name = name ∧ b = Brick.new app := by
    intro name b
    simpa using lookup_forM_registerApp hforM
  refine ⟨declarations registered.values, ?_, ?_⟩
  · simp only [lookup_updateBricks, Option.map_eq_some_iff, hlookup]
    grind
  · intro d
    simp only [mem_declarations, mem_values, hlookup]
    constructor
    · rintro ⟨i, ⟨_, app, happ, _, rfl⟩, hname, hm⟩
      exact ⟨app, happ, hname, hm⟩
    · rintro ⟨app, happ, hname, hm⟩
      exact ⟨Brick.new app, ⟨_, app, happ, rfl, rfl⟩, hname, hm⟩

variable {app' : App}

/-- Two applications of one name are not registered. -/
theorem Built.eq_of_name_eq (h : Built apps ds bricks) (happ : app ∈ apps)
    (happ' : app' ∈ apps) (hname : app.name = app'.name) : app = app' := by
  have hb := (h.lookup_iff app.name _).2 ⟨app, happ, rfl, rfl⟩
  have hb' := (h.lookup_iff app.name _).2 ⟨app', happ', hname.symm, rfl⟩
  have heq := congrArg Brick.app (Option.some.inj (hb.symm.trans hb'))
  rwa [Brick.updateAll_fields.1, Brick.updateAll_fields.1] at heq

theorem isSource_iff (happ' : app'.UsesSetEvCls) (hm : m ∈ app'.methods)
    {e : EvCls} (hc : m.callers.lookup e = some c) :
    Brick.IsSource app.name app.events e c ↔ app.Provides e := by
  simp [Brick.IsSource, App.Provides, evSource_of_lookup (happ' m hm) hc]

section

variable (h : Built apps ds bricks)
include h

/-- The declarations for `e` of one application that reach another, by their dispatcher lists. -/
theorem Built.exists_declared_iff (app : App) (happ' : app' ∈ apps) (hcls : app'.UsesSetEvCls)
    (e : EvCls) (p : List String → Prop) :
    (∃ d ∈ ds, d.evCls = e ∧ d.name = app'.name ∧ Brick.IsSource app.name app.events e d.caller ∧
      p d.caller.dispatchers) ↔
    app.Provides e ∧ ∃ states ∈ app'.dispatchersOf e, p states := by
  constructor
  · rintro ⟨d, hd, rfl, hname, hsource, hp⟩
    obtain ⟨app'', happ'', hname', m, hm, hc⟩ := (h.declared_iff d).1 hd
    obtain rfl := h.eq_of_name_eq happ'' happ' (hname'.trans hname)
    exact ⟨(isSource_iff hcls hm hc).1 hsource, _, App.mem_dispatchersOf.2 ⟨m, hm, _, hc, rfl⟩, hp⟩
  · rintro ⟨hprovides, _, hstates, hp⟩
    obtain ⟨m, hm, c, hc, rfl⟩ := App.mem_dispatchersOf.1 hstates
    exact ⟨⟨app'.name, e, c⟩, (h.declared_iff _).2 ⟨app', happ', rfl, m, hm, hc⟩, rfl, rfl,
      (isSource_iff hcls hm hc).2 hprovides, hp⟩

theorem Built.loaded (hcls : ∀ app ∈ apps, app.UsesSetEvCls) (happ : app ∈ apps) :
    ((Brick.new app).updateAll app.name ds).Loaded apps where
  mem := by rwa [Brick.updateAll_fields.1]
  bucket_eventHandlers e := by
    rw [Brick.updateAll_fields.1, Brick.updateAll_fields.2.1]
    exact bucket_registerInstance app e
  isSome_observed e app' happ' := by
    rw [Brick.isSome_observed_updateAll, Brick.updateAll_fields.1, ← isEmpty_eq_false_iff,
      isEmpty_eq_false_iff_exists_mem]
    simpa [Brick.observed, Brick.new] using
      h.exists_declared_iff app happ' (hcls app' happ') e fun _ => True
  mem_observed e app' happ' st := by
    rw [Brick.mem_observed_updateAll, Brick.updateAll_fields.1]
    simpa [Brick.observed, Brick.new] using
      h.exists_declared_iff app happ' (hcls app' happ') e fun states => st ∈ states

theorem Built.ready (hcls : ∀ app ∈ apps, app.UsesSetEvCls) : Ready apps bricks where
  name_eq name b hb := by
    obtain ⟨app, happ, rfl, rfl⟩ := (h.lookup_iff name b).1 hb
    rw [Brick.updateAll_fields.1]
    rfl
  loaded name b hb := by
    obtain ⟨app, happ, rfl, rfl⟩ := (h.lookup_iff name b).1 hb
    exact h.loaded hcls happ
  exists_brick app happ :=
    ⟨_, (h.lookup_iff app.name _).2 ⟨app, happ, rfl, rfl⟩, Brick.updateAll_fields.1⟩

/-- No event is queued before the applications start. -/
theorem Built.idle {name : String} {b : Brick} (hb : bricks.lookup name = some b) :
    b.events = [] ∧ b.calls = [] := by
  obtain ⟨app, happ, rfl, rfl⟩ := (h.lookup_iff name b).1 hb
  exact ⟨Brick.updateAll_fields.2.2.1, Brick.updateAll_fields.2.2.2⟩

end

end Instantiate

end AppManager

end BebaCtrl
