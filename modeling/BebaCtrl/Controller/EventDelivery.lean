import BebaCtrl.Controller.AppManager

/-!
# Which handlers are run

An event sent to the observers of an application should reach every handler that is declared for its
class with a dispatcher list that is empty or contains the state, and no other one. The handlers of
one application are tested one by one, but before that the application as a whole, by the union of
its dispatcher lists. The union forgets the empty lists: when another list is not empty, the
application is sent the event in the states of the other lists only.
-/

namespace BebaCtrl

open List Dict

namespace AppManager

open History

/-! ### What is asked of a run -/

/-- The handler is declared for `e`, and its dispatcher list is empty or contains the state. -/
def Method.Wants (m : Method) (e : EvCls) (state : Option String) : Prop :=
  ∃ c ∈ m.callers.lookup e, c.dispatchers = [] ∨ ∃ st ∈ state, st ∈ c.dispatchers

instance {m : Method} {e : EvCls} {state : Option String} : Decidable (m.Wants e state) :=
  inferInstanceAs (Decidable (∃ c ∈ m.callers.lookup e, _ ∨ ∃ st ∈ state, _))

/-- One of the applications is called `src` and is a source of `e`. -/
def IsProvider (apps : List App) (src : String) (e : EvCls) : Prop :=
  ∃ app ∈ apps, app.name = src ∧ app.Provides e

instance {apps : List App} {src : String} {e : EvCls} : Decidable (IsProvider apps src e) :=
  inferInstanceAs (Decidable (∃ app ∈ apps, _ ∧ _))

/-- The calls that an action asks of the application `app`. -/
def expectedOf (apps : List App) (app : App) : Action → List (Method × Event)
  | .send src ev state =>
    if IsProvider apps src ev.cls then
      (app.methods.filter fun m => m.Wants ev.cls state).map fun m => (m, ev)
    else []
  | .handle _ => []

/-- Once the event loops have emptied their queues, every application has made the calls that were
asked of it, once each and in the order of the events. -/
def Delivered (apps : List App) (bricks : Bricks) (actions : List Action) : Prop :=
  ∀ app ∈ apps, ∃ b, (run bricks actions).lookup app.name = some b ∧
    b.eventLoop.calls = actions.flatMap (expectedOf apps app)

/-- The test of the union of the dispatcher lists agrees with the tests of each of them. -/
def App.FiltersAgree (app : App) (e : EvCls) : Option String → Prop
  | none => ∀ ds ∈ app.dispatchersOf e, ds = []
  | some st => st = "" ∨ [] ∉ app.dispatchersOf e ∨ (∀ ds ∈ app.dispatchersOf e, ds = []) ∨
      ∃ ds ∈ app.dispatchersOf e, st ∈ ds

/-- The tests agree for every application, if the action sends an event. -/
def Agrees (apps : List App) : Action → Prop
  | .send src ev state => IsProvider apps src ev.cls → ∀ app ∈ apps, app.FiltersAgree ev.cls state
  | .handle _ => True

/-! ### Queues -/

namespace Brick

variable {apps : List App} {b : Brick} {ev : Event} {state : Option String}

theorem calls_eventLoop (b : Brick) :
    b.eventLoop.calls = b.calls ++ b.events.flatMap b.callsOf := by
  obtain ⟨app, handlers, observers, events, calls⟩ := b
  induction events generalizing calls with
  | nil => simp [eventLoop]
  | cons item rest ih =>
    refine (ih (calls ++ callsOf ⟨app, handlers, observers, item :: rest, calls⟩ item)).trans ?_
    simp only [flatMap_cons, append_assoc]
    rfl

theorem calls_eventLoop_handleEvent (b : Brick) :
    b.handleEvent.eventLoop.calls = b.eventLoop.calls := by
  obtain ⟨app, handlers, observers, events, calls⟩ := b
  cases events with
  | nil => rfl
  | cons item rest =>
    rfl

theorem calls_eventLoop_sendEvent (b : Brick) :
    (b.sendEvent ev state).eventLoop.calls = b.eventLoop.calls ++ b.callsOf (ev, state) := by
  rw [calls_eventLoop, calls_eventLoop, append_assoc]
  have hflat : (b.sendEvent ev state).events.flatMap (b.sendEvent ev state).callsOf =
      b.events.flatMap b.callsOf ++ b.callsOf (ev, state) := by
    change (b.events ++ [(ev, state)]).flatMap b.callsOf = _
    simp
  rw [hflat]
  rfl

theorem Loaded.sendEvent (h : b.Loaded apps) : (b.sendEvent ev state).Loaded apps :=
  ⟨h.mem, h.bucket_eventHandlers, h.isSome_observed, h.mem_observed⟩

theorem app_handleEvent (b : Brick) : b.handleEvent.app = b.app := by
  unfold handleEvent
  split <;> rfl

theorem Loaded.handleEvent (h : b.Loaded apps) : b.handleEvent.Loaded apps := by
  unfold Brick.handleEvent
  split
  · exact h
  · exact ⟨h.mem, h.bucket_eventHandlers, h.isSome_observed, h.mem_observed⟩

/-! ### The two tests -/

theorem nodup_getObservers (b : Brick) : (b.getObservers ev state).Nodup :=
  ((b.observers.lookup ev.cls).getD ∅).keys_nodup.sublist
    (List.Sublist.map Sigma.fst filter_sublist)

theorem mem_getObservers {name : String} : name ∈ b.getObservers ev state ↔
    ∃ states, b.observed ev.cls name = some states ∧ Interested state states := by
  simp only [getObservers, mem_map, mem_filter, Sigma.exists, mem_entries, observed,
    decide_eq_true_eq]
  cases b.observers.lookup ev.cls <;> simp

end Brick

variable {i : Brick} {app : App} {ev : Event} {state : Option String}

theorem Brick.Loaded.mem_getObservers_iff {apps : List App} (hi : i.Loaded apps)
    (happ : app ∈ apps) :
    app.name ∈ i.getObservers ev state ↔ i.app.Provides ev.cls ∧ app.dispatchersOf ev.cls ≠ [] ∧
      (state.getD "" = "" ∨ (∀ ds ∈ app.dispatchersOf ev.cls, ds = []) ∨
        ∃ ds ∈ app.dispatchersOf ev.cls, state.getD "" ∈ ds) := by
  have hsome := hi.isSome_observed ev.cls app happ
  have hmem := hi.mem_observed ev.cls app happ
  rw [Brick.mem_getObservers]
  cases hobs : i.observed ev.cls app.name with
  | none => grind
  | some states =>
    rw [hobs] at hsome hmem
    obtain ⟨hprovides, hne⟩ := hsome.1 rfl
    have hempty : states = ∅ ↔ ∀ ds ∈ app.dispatchersOf ev.cls, ds = [] := by
      rw [Finset.eq_empty_iff_forall_notMem]
      simp only [Option.getD_some] at hmem
      simp only [hmem, hprovides, true_and, eq_nil_iff_forall_not_mem]
      grind
    simp only [Option.getD_some] at hmem
    simp [Brick.Interested, hempty, hmem, hprovides, hne]

variable {b : Brick}

theorem Brick.Loaded.getHandlers_none {apps : List App} (h : b.Loaded apps) :
    b.getHandlers ev none = b.app.methods.filter fun m => ev.cls ∈ m.callers :=
  h.bucket_eventHandlers ev.cls

theorem Brick.Loaded.getHandlers_some {apps : List App} (h : b.Loaded apps) {st : String} :
    b.getHandlers ev (some st) = b.app.methods.filter fun m => m.Wants ev.cls (some st) := by
  rw [Brick.getHandlers, h.bucket_eventHandlers, filter_filter]
  refine filter_congr fun m _ => ?_
  cases hc : m.callers.lookup ev.cls with
  | none => simp [Method.Wants, hc, AList.lookup_eq_none.1 hc]
  | some c => simp [Method.Wants, hc, mem_of_lookup hc]

theorem App.filter_wants_eq_nil_iff (app : App) (e : EvCls) (state : Option String) :
    (app.methods.filter fun m => m.Wants e state) = [] ↔
      ∀ ds ∈ app.dispatchersOf e, ds ≠ [] ∧ ∀ st ∈ state, st ∉ ds := by
  simp only [filter_eq_nil_iff, decide_eq_true_eq]
  constructor
  · intro h ds hds
    obtain ⟨m, hm, c, hc, rfl⟩ := App.mem_dispatchersOf.1 hds
    refine ⟨fun hnil => h m hm ⟨c, hc, .inl hnil⟩, ?_⟩
    intro st hst hmem
    exact h m hm ⟨c, hc, .inr ⟨st, hst, hmem⟩⟩
  · rintro h m hm ⟨c, hc, hwants⟩
    obtain ⟨hne, hstate⟩ := h _ (App.mem_dispatchersOf.2 ⟨m, hm, c, hc, rfl⟩)
    rcases hwants with hnil | ⟨st, hst, hmem⟩
    · exact hne hnil
    · exact hstate st hst hmem

/-- Without a state every handler of the class is run. -/
theorem App.filter_mem_eq_iff {e : EvCls} :
    (app.methods.filter fun m => e ∈ m.callers) = (app.methods.filter fun m => m.Wants e none) ↔
      app.FiltersAgree e none := by
  constructor
  · intro heq ds hds
    obtain ⟨m, hm, c, hc, rfl⟩ := App.mem_dispatchersOf.1 hds
    have hwants : m ∈ app.methods.filter fun m => m.Wants e none := by
      rw [← heq]
      simp [hm, mem_of_lookup hc]
    obtain ⟨c', hc', h⟩ := of_decide_eq_true (mem_filter.1 hwants).2
    obtain rfl := Option.some.inj (hc.symm.trans hc')
    simpa using h
  · intro h
    refine filter_congr fun m hm => decide_eq_decide.2 ?_
    rw [mem_iff_lookup]
    constructor
    · rintro ⟨c, hc⟩
      exact ⟨c, hc, .inl (h _ (App.mem_dispatchersOf.2 ⟨m, hm, c, hc, rfl⟩))⟩
    · rintro ⟨c, hc, -⟩
      exact ⟨c, hc⟩

/-- What the two tests let through, and what each handler asks for. -/
theorem filtersAgree_iff {apps : List App} {i b : Brick} (hi : i.Loaded apps) (hb : b.Loaded apps)
    (hprovides : i.app.Provides ev.cls) :
    (if b.app.name ∈ i.getObservers ev state then b.getHandlers ev state else []) =
      (b.app.methods.filter fun m => m.Wants ev.cls state) ↔ b.app.FiltersAgree ev.cls state := by
  have hnil := b.app.filter_wants_eq_nil_iff ev.cls state
  simp only [hi.mem_getObservers_iff hb.mem, hprovides, true_and]
  cases state with
  | none =>
    by_cases hne : b.app.dispatchersOf ev.cls = []
    · simp [hne, hnil.2, App.FiltersAgree]
    · simp [hne, hb.getHandlers_none, App.filter_mem_eq_iff]
  | some st =>
    rw [hb.getHandlers_some]
    split
    next h => grind [App.FiltersAgree]
    next h =>
      grind [App.FiltersAgree]

/-! ### Steps -/

section Steps

variable {apps : List App} {bricks : Bricks}

/-- The application `name` gets an event of an observed one, in its queue and once. -/
theorem lookup_sendEventToObservers {src name : String} (hi : bricks.lookup src = some i) :
    (sendEventToObservers src ev state bricks).lookup name = (bricks.lookup name).map fun b =>
      if name ∈ i.getObservers ev state then b.sendEvent ev state else b := by
  simp only [sendEventToObservers, hi, lookup_foldl_alter i.nodup_getObservers]
  split <;> simp

/-- A step changes the queues and the calls only. -/
theorem Ready.map (h : Ready apps bricks) {bricks' : Bricks} {g : String → Brick → Brick}
    (hlookup : ∀ name, bricks'.lookup name = (bricks.lookup name).map (g name))
    (happ : ∀ name b, (g name b).app = b.app)
    (hloaded : ∀ name b, b.Loaded apps → (g name b).Loaded apps) : Ready apps bricks' where
  name_eq name b hb := by
    rw [hlookup, Option.map_eq_some_iff] at hb
    obtain ⟨b, hb, rfl⟩ := hb
    rw [happ, h.name_eq name b hb]
  loaded name b hb := by
    rw [hlookup, Option.map_eq_some_iff] at hb
    obtain ⟨b, hb, rfl⟩ := hb
    exact hloaded name b (h.loaded name b hb)
  exists_brick app hmem := by
    obtain ⟨b, hb, hbapp⟩ := h.exists_brick app hmem
    exact ⟨g app.name b, by rw [hlookup, hb, Option.map_some], by rw [happ, hbapp]⟩

/-- The calls that an action adds to those an application will have made. -/
def deliveredOf (bricks : Bricks) (b : Brick) : Action → List (Method × Event)
  | .send src ev state =>
    match bricks.lookup src with
    | none => []
    | some i => if b.app.name ∈ i.getObservers ev state then b.callsOf (ev, state) else []
  | .handle _ => []

theorem Ready.step (h : Ready apps bricks) (action : Action) : Ready apps (step bricks action) := by
  cases action with
  | handle name =>
    refine h.map (g := fun k b => if k = name then b.handleEvent else b) ?_ ?_ ?_
    · intro k
      rw [AppManager.step, lookup_alter]
      split <;> simp
    · intro k b
      split
      · exact b.app_handleEvent
      · rfl
    · intro k b hb
      split
      · exact hb.handleEvent
      · exact hb
  | send src ev state =>
    rw [AppManager.step]
    cases hi : bricks.lookup src with
    | none => rwa [sendEventToObservers, hi]
    | some i =>
      refine h.map (fun name => lookup_sendEventToObservers hi) ?_ ?_
      · intro k b
        split <;> rfl
      · intro k b hb
        split
        · exact hb.sendEvent
        · exact hb

theorem Ready.calls_step (h : Ready apps bricks) (action : Action)
    (hb : bricks.lookup app.name = some b) :
    ∃ b', (AppManager.step bricks action).lookup app.name = some b' ∧
      b'.eventLoop.calls = b.eventLoop.calls ++ deliveredOf bricks b action := by
  cases action with
  | handle name =>
    simp only [AppManager.step, lookup_alter, hb, deliveredOf, append_nil]
    split
    · exact ⟨_, rfl, b.calls_eventLoop_handleEvent⟩
    · exact ⟨b, rfl, rfl⟩
  | send src ev state =>
    simp only [AppManager.step, deliveredOf]
    cases hi : bricks.lookup src with
    | none => exact ⟨b, by rw [sendEventToObservers, hi, hb], by simp⟩
    | some i =>
      refine ⟨_, by rw [lookup_sendEventToObservers hi, hb, Option.map_some], ?_⟩
      simp only [h.name_eq _ b hb]
      split
      · exact b.calls_eventLoop_sendEvent
      · exact (append_nil _).symm

theorem Ready.isProvider_iff (h : Ready apps bricks) {src : String}
    (hi : bricks.lookup src = some i) {e : EvCls} : IsProvider apps src e ↔ i.app.Provides e := by
  constructor
  · rintro ⟨app, happ, rfl, hprovides⟩
    obtain ⟨b, hb, rfl⟩ := h.exists_brick app happ
    rwa [Option.some.inj (hi.symm.trans hb)]
  · intro hprovides
    exact ⟨i.app, (h.loaded src i hi).mem, h.name_eq src i hi, hprovides⟩

/-- An action delivers what is asked of it exactly if the tests agree. -/
theorem Ready.agrees_iff (h : Ready apps bricks) (action : Action) :
    (∀ name b, bricks.lookup name = some b →
      deliveredOf bricks b action = expectedOf apps b.app action) ↔ Agrees apps action := by
  cases action with
  | handle name => simp [deliveredOf, expectedOf, Agrees]
  | send src ev state =>
    cases hi : bricks.lookup src with
    | none =>
      have hnot : ¬IsProvider apps src ev.cls := by
        rintro ⟨app, happ, rfl, -⟩
        obtain ⟨b, hb, -⟩ := h.exists_brick app happ
        cases hi.symm.trans hb
      simp [deliveredOf, expectedOf, Agrees, hi, hnot]
    | some i =>
      simp only [deliveredOf, expectedOf, Agrees, hi, h.isProvider_iff hi]
      by_cases hprovides : i.app.Provides ev.cls
      · have hbrick : ∀ name b, bricks.lookup name = some b →
            ((if b.app.name ∈ i.getObservers ev state then b.callsOf (ev, state) else []) =
              ((b.app.methods.filter fun m => m.Wants ev.cls state).map fun m => (m, ev)) ↔
            b.app.FiltersAgree ev.cls state) := by
          intro name b hb
          rw [← filtersAgree_iff (h.loaded src i hi) (h.loaded name b hb) hprovides,
            ← map_inj_right (f := fun m : Method => (m, ev)) fun m m' heq => (Prod.mk.inj heq).1,
            apply_ite (List.map fun m : Method => (m, ev))]
          rfl
        simp only [hprovides, if_true, true_imp_iff]
        constructor
        · intro hall app happ
          obtain ⟨b, hb, rfl⟩ := h.exists_brick app happ
          exact (hbrick _ b hb).1 (hall _ b hb)
        · intro hall name b hb
          exact (hbrick name b hb).2 (hall b.app (h.loaded name b hb).mem)
      · refine iff_of_true ?_ fun hp => absurd hp hprovides
        intro name b hb
        have hnot : b.app.name ∉ i.getObservers ev state := fun hmem =>
          hprovides (((h.loaded src i hi).mem_getObservers_iff (h.loaded name b hb).mem).1 hmem).1
        rw [if_neg hnot, if_neg hprovides]

theorem run_concat (actions : List Action) (action : Action) :
    run bricks (actions ++ [action]) = AppManager.step (run bricks actions) action := by
  simp [run]

theorem Ready.delivered_concat_iff {actions : List Action} (h : Ready apps (run bricks actions))
    (hdelivered : Delivered apps bricks actions) {action : Action} :
    Delivered apps bricks (actions ++ [action]) ↔ Agrees apps action := by
  have hbrick : ∀ name b, (run bricks actions).lookup name = some b →
      ((∃ b', (run bricks (actions ++ [action])).lookup name = some b' ∧
        b'.eventLoop.calls = (actions ++ [action]).flatMap (expectedOf apps b.app)) ↔
      deliveredOf (run bricks actions) b action = expectedOf apps b.app action) := by
    intro name b hb
    obtain rfl := h.name_eq name b hb
    obtain ⟨b₀, hb₀, hcalls⟩ := hdelivered b.app (h.loaded _ b hb).mem
    obtain rfl := Option.some.inj (hb.symm.trans hb₀)
    obtain ⟨b', hb', hcalls'⟩ := h.calls_step action hb
    rw [run_concat, hb', flatMap_append, flatMap_singleton, ← hcalls]
    simp [hcalls']
  rw [← h.agrees_iff]
  constructor
  · intro hall name b hb
    refine (hbrick name b hb).1 ?_
    rw [← h.name_eq name b hb]
    exact hall b.app (h.loaded name b hb).mem
  · intro hall app happ
    obtain ⟨b, hb, rfl⟩ := h.exists_brick app happ
    exact (hbrick _ b hb).2 (hall _ b hb)

end Steps

/-! ### Runs -/

/-- In every run, the applications do what is asked of them after each action exactly if the tests
agree at each event that is sent. -/
theorem delivered_iff_agrees {apps : List App} {bricks : Bricks}
    (hload : instantiateApps apps ∅ = (.ok (), bricks)) (hcls : ∀ app ∈ apps, app.UsesSetEvCls)
    (actions : List Action) :
    Throughout (fun before action => Delivered apps bricks (before ++ [action])) actions ↔
      ∀ action ∈ actions, Agrees apps action := by
  obtain ⟨ds, hbuilt⟩ := built_of_instantiateApps hload
  rw [← throughout_mem_iff]
  refine throughout_iff
    (fun before => Ready apps (run bricks before) ∧ Delivered apps bricks before)
    ⟨hbuilt.ready hcls, ?_⟩ ?_ ?_ actions
  · intro app happ
    obtain ⟨b, hb, -⟩ := (hbuilt.ready hcls).exists_brick app happ
    obtain ⟨hevents, hcalls⟩ := hbuilt.idle hb
    exact ⟨b, hb, by simp [Brick.calls_eventLoop, hevents, hcalls]⟩
  · rintro before action ⟨hready, hdelivered⟩
    exact hready.delivered_concat_iff hdelivered
  · rintro before action ⟨hready, hdelivered⟩ hagrees
    refine ⟨?_, (hready.delivered_concat_iff hdelivered).2 hagrees⟩
    rw [run_concat]
    exact hready.step action

def errorMsg : EvCls := ⟨["ryu", "controller", "ofp_event"], "EventOFPErrorMsg"⟩

/-- An application with one handler for errors in all states and one for those in the state MAIN. -/
def monitor : App where
  name := "Monitor"
  events := []
  methods := [⟨"error_handler", [.setEvCls [errorMsg] []]⟩,
    ⟨"main_error_handler", [.setEvCls [errorMsg] ["main"]]⟩]

def monitorApps : List App := [⟨"ofp_event", [], []⟩, monitor]

theorem delivered_iff_agrees_monitorApps :
    Throughout (fun before action =>
      Delivered monitorApps (instantiateApps monitorApps ∅).2 (before ++ [action]))
        [.send "ofp_event" ⟨errorMsg, 0⟩ (some "main"), .handle "Monitor"] ↔
      ∀ action ∈ [.send "ofp_event" ⟨errorMsg, 0⟩ (some "main"), .handle "Monitor"],
        Agrees monitorApps action :=
  delivered_iff_agrees (Prod.ext (by decide +kernel) rfl)
    (by simp [monitorApps, monitor, App.UsesSetEvCls]) _

/-- An error in the state CONFIG does not reach the handler for all states. -/
theorem not_delivered_config : ¬Throughout (fun before action =>
    Delivered monitorApps (instantiateApps monitorApps ∅).2 (before ++ [action]))
      [.send "ofp_event" ⟨errorMsg, 0⟩ (some "config")] := by
  intro h
  obtain ⟨b, hb, hcalls⟩ := h [] _ [] rfl monitor (by simp [monitorApps])
  have hnone : ((run (instantiateApps monitorApps ∅).2 [.send "ofp_event" ⟨errorMsg, 0⟩
      (some "config")]).lookup monitor.name).map (fun b => b.eventLoop.calls) = some [] := by
    decide +kernel
  have hsome : [Action.send "ofp_event" ⟨errorMsg, 0⟩ (some "config")].flatMap
      (expectedOf monitorApps monitor) = [(⟨"error_handler", [.setEvCls [errorMsg] []]⟩,
        ⟨errorMsg, 0⟩)] := by
    decide +kernel
  rw [nil_append] at hb hcalls
  rw [hb, Option.map_some, hcalls, hsome] at hnone
  cases hnone

end AppManager

end BebaCtrl
