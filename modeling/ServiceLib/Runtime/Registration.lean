import ServiceLib.HashMap
import ServiceLib.Runtime.ServiceApp

/-!
# Registering resources

Follows `register_endpoint_consumer`, `register_task_pool` and `register_priority_task_pool` of
`RuntimeEnvironment`, and `register_data_source` and `register_data_sink` of `ServiceApp`. Each of
them inserts into a hash map first and looks at what was there afterwards.

**Theorem (`registration_atomic`).** A call leaves every registry as it was when it returns
`DuplicateResource`, if and only if it does not put a different resource under a key that is taken.
In every sequence of calls that avoid this, the resource that was registered under a key is the one
that lookups return and that the service starts and stops.

Under a key that is taken, the refused resource replaces the registered one, which is then neither
started nor stopped (`duplicate_replaces`).
-/

namespace ServiceLib

namespace Registration

open ServiceLib.ServiceApp (AppState)

/-! ## Registries -/

/-- An `Arc` to a resource: its id, its name, and which allocation it points to. -/
structure Resource where
  id : ℤ
  name : String
  ref : ℕ
  deriving DecidableEq

/-- The registries of the environment and of the service. `locked` tells whether a call of `start` or
`stop` holds the mutex of `state`. -/
structure App where
  name : String
  state : AppState
  locked : Bool
  endpointConsumers : HashMap ℤ Resource
  taskPools : HashMap String Resource
  priorityTaskPools : HashMap String Resource
  dataSources : HashMap ℤ Resource
  dataSinks : HashMap ℤ Resource

def App.new (name : String) : App := ⟨name, .created, false, ∅, ∅, ∅, ∅, ∅⟩

/-- `if registry.insert(key, resource).is_some() { return Err(DuplicateResource(label)) }`. -/
def insertResource {K : Type} [DecidableEq K] (registry : HashMap K Resource) (key : K)
    (resource : Resource) (label : String) : HashMap K Resource × RuntimeResult Unit :=
  (registry.insert key resource,
    if (registry.lookup key).isSome then .error (.duplicateResource label) else .ok ())

namespace App

def ensureCreated (app : App) : RuntimeResult Unit :=
  if app.locked then .error (.resourceAlreadyStarted app.name)
  else if app.state ≠ .created then
    if app.state = .stopped then .error (.resourceStopped app.name)
    else .error (.resourceAlreadyStarted app.name)
  else .ok ()

def registerEndpointConsumer (app : App) (consumer : Resource) : App × RuntimeResult Unit :=
  let (endpointConsumers, result) := insertResource app.endpointConsumers consumer.id consumer
    s!"endpoint consumer {consumer.id}"
  ({ app with endpointConsumers := endpointConsumers }, result)

/-- `configure_metrics` of a pool does nothing. -/
def registerTaskPool (app : App) (pool : Resource) : App × RuntimeResult Unit :=
  let (taskPools, result) := insertResource app.taskPools pool.name pool pool.name
  ({ app with taskPools := taskPools }, result)

def registerPriorityTaskPool (app : App) (pool : Resource) : App × RuntimeResult Unit :=
  let (priorityTaskPools, result) :=
    insertResource app.priorityTaskPools pool.name pool pool.name
  ({ app with priorityTaskPools := priorityTaskPools }, result)

def registerDataSource (app : App) (dataSource : Resource) : App × RuntimeResult Unit :=
  match app.ensureCreated with
  | .error error => (app, .error error)
  | .ok () =>
    let (dataSources, result) :=
      insertResource app.dataSources dataSource.id dataSource dataSource.name
    ({ app with dataSources := dataSources }, result)

def registerDataSink (app : App) (dataSink : Resource) : App × RuntimeResult Unit :=
  match app.ensureCreated with
  | .error error => (app, .error error)
  | .ok () =>
    let (dataSinks, result) := insertResource app.dataSinks dataSink.id dataSink dataSink.name
    ({ app with dataSinks := dataSinks }, result)

def endpointConsumer (app : App) (id : ℤ) : Option Resource := app.endpointConsumers.lookup id

def taskPool (app : App) (name : String) : RuntimeResult Resource :=
  match app.taskPools.lookup name with
  | some pool => .ok pool
  | none => .error (.taskPoolNotFound name)

def priorityTaskPool (app : App) (name : String) : RuntimeResult Resource :=
  match app.priorityTaskPools.lookup name with
  | some pool => .ok pool
  | none => .error (.priorityTaskPoolNotFound name)

def dataSource (app : App) (id : ℤ) : Option Resource := app.dataSources.lookup id

def dataSink (app : App) (id : ℤ) : Option Resource := app.dataSinks.lookup id

end App

/-! ## The five functions as one -/

/-- A key of one of the registries. -/
inductive Key
  | endpointConsumer (id : ℤ)
  | taskPool (name : String)
  | priorityTaskPool (name : String)
  | dataSource (id : ℤ)
  | dataSink (id : ℤ)
  deriving DecidableEq

inductive Call
  | registerEndpointConsumer (consumer : Resource)
  | registerTaskPool (pool : Resource)
  | registerPriorityTaskPool (pool : Resource)
  | registerDataSource (dataSource : Resource)
  | registerDataSink (dataSink : Resource)

namespace Call

def resource : Call → Resource
  | registerEndpointConsumer x | registerTaskPool x | registerPriorityTaskPool x
  | registerDataSource x | registerDataSink x => x

def key : Call → Key
  | registerEndpointConsumer x => .endpointConsumer x.id
  | registerTaskPool x => .taskPool x.name
  | registerPriorityTaskPool x => .priorityTaskPool x.name
  | registerDataSource x => .dataSource x.id
  | registerDataSink x => .dataSink x.id

/-- The call is not refused because of the state of the service. -/
def Admitted (app : App) : Call → Prop
  | registerDataSource _ | registerDataSink _ => app.ensureCreated = .ok ()
  | _ => True

end Call

namespace App

def register (app : App) : Call → App × RuntimeResult Unit
  | .registerEndpointConsumer x => app.registerEndpointConsumer x
  | .registerTaskPool x => app.registerTaskPool x
  | .registerPriorityTaskPool x => app.registerPriorityTaskPool x
  | .registerDataSource x => app.registerDataSource x
  | .registerDataSink x => app.registerDataSink x

/-- What the lookups return. -/
def lookup (app : App) : Key → Option Resource
  | .endpointConsumer id => app.endpointConsumer id
  | .taskPool name => (app.taskPool name).toOption
  | .priorityTaskPool name => (app.priorityTaskPool name).toOption
  | .dataSource id => app.dataSource id
  | .dataSink id => app.dataSink id

end App

/-- Iteration orders of the registries. -/
structure Orders where
  byId : IterOrder ℤ Resource
  byName : IterOrder String Resource

/-- `values()`, with the keys. -/
def values {K : Type} (order : IterOrder K Resource) (key : K → Key)
    (registry : HashMap K Resource) : List (Key × Resource) :=
  (order.iter registry).map fun entry => (key entry.1, entry.2)

/-- The registered resources that `start_with_admission` starts, in its order. -/
def App.started (orders : Orders) (admission : Bool) (app : App) : List (Key × Resource) :=
  values orders.byName .taskPool app.taskPools ++
    values orders.byName .priorityTaskPool app.priorityTaskPools ++
    values orders.byId .dataSink app.dataSinks ++
    if admission then values orders.byId .dataSource app.dataSources else []

/-- The registered resources that the jobs of `shutdown_phases` stop, in their order. -/
def App.stopped (orders : Orders) (app : App) : List (Key × Resource) :=
  values orders.byId .dataSource app.dataSources ++
    values orders.byName .taskPool app.taskPools ++
    values orders.byName .priorityTaskPool app.priorityTaskPools ++
    values orders.byId .dataSink app.dataSinks

/-! ## Sequences of calls -/

/-- The service and the environment, with the registrations that returned `Ok`. -/
structure State where
  app : App
  accepted : List (Key × Resource)

inductive Action
  | register (call : Call)
  /-- `start` and `stop` move the state of the service, and hold its mutex. -/
  | lifecycle (state : AppState) (locked : Bool)

def step (s : State) : Action → State
  | .register call =>
    let (app, result) := s.app.register call
    match result with
    | .ok () => ⟨app, s.accepted ++ [(call.key, call.resource)]⟩
    | .error _ => { s with app := app }
  | .lifecycle state locked => { s with app := { s.app with state := state, locked := locked } }

def system (name : String) : System State Action where
  init := ⟨.new name, []⟩
  step s a := some (step s a)

/-- The call puts no different resource under a key that is taken. -/
def Fresh (app : App) (call : Call) : Prop :=
  call.Admitted app → ∀ x, app.lookup call.key = some x → x = call.resource

def FreshStep (s : State) : Action → Prop
  | .register call => Fresh s.app call
  | .lifecycle _ _ => True

/-! ## What a call does -/

section Calls

variable {app : App} {call : Call} {k : Key} {x : Resource}

theorem lookup_taskPool {name : String} : app.lookup (.taskPool name) = app.taskPools.lookup name := by
  simp only [App.lookup, App.taskPool]
  cases app.taskPools.lookup name <;> rfl

theorem lookup_priorityTaskPool {name : String} :
    app.lookup (.priorityTaskPool name) = app.priorityTaskPools.lookup name := by
  simp only [App.lookup, App.priorityTaskPool]
  cases app.priorityTaskPools.lookup name <;> rfl

theorem lookup_insertResource {K : Type} [DecidableEq K] (registry : HashMap K Resource) (key : K)
    (resource : Resource) (label : String) (k : K) :
    (insertResource registry key resource label).1.lookup k =
      if k = key then some resource else registry.lookup k := by
  split_ifs with h
  · subst h
    exact Finmap.lookup_insert ..
  · exact Finmap.lookup_insert_of_ne _ h

/-- An admitted call puts its resource under its key, whatever it returns. -/
theorem lookup_register (h : call.Admitted app) :
    (app.register call).1.lookup k = if k = call.key then some call.resource else app.lookup k := by
  cases call with
  | registerEndpointConsumer x =>
    cases k with
    | endpointConsumer id =>
      simp only [Call.key, Key.endpointConsumer.injEq]
      exact lookup_insertResource _ x.id x s!"endpoint consumer {x.id}" id
    | _ => rfl
  | registerTaskPool x =>
    cases k with
    | taskPool name =>
      simp only [lookup_taskPool, Call.key, Key.taskPool.injEq]
      exact lookup_insertResource _ x.name x x.name name
    | _ => rfl
  | registerPriorityTaskPool x =>
    cases k with
    | priorityTaskPool name =>
      simp only [lookup_priorityTaskPool, Call.key, Key.priorityTaskPool.injEq]
      exact lookup_insertResource _ x.name x x.name name
    | _ => rfl
  | registerDataSource x =>
    have hc : app.ensureCreated = .ok () := h
    simp only [App.register, App.registerDataSource, hc]
    cases k with
    | dataSource id =>
      simp only [Call.key, Key.dataSource.injEq]
      exact lookup_insertResource _ x.id x x.name id
    | _ => rfl
  | registerDataSink x =>
    have hc : app.ensureCreated = .ok () := h
    simp only [App.register, App.registerDataSink, hc]
    cases k with
    | dataSink id =>
      simp only [Call.key, Key.dataSink.injEq]
      exact lookup_insertResource _ x.id x x.name id
    | _ => rfl

/-- The call returned `DuplicateResource`. -/
def IsDuplicate (result : RuntimeResult Unit) : Prop :=
  ∃ label, result = .error (.duplicateResource label)

theorem insertResource_result {K : Type} [DecidableEq K] (registry : HashMap K Resource) (key : K)
    (resource : Resource) (label : String) :
    (registry.lookup key = none ∧ (insertResource registry key resource label).2 = .ok ()) ∨
      ((registry.lookup key).isSome ∧
        IsDuplicate (insertResource registry key resource label).2) := by
  cases h : registry.lookup key with
  | none => exact .inl ⟨rfl, by rw [insertResource, h]; rfl⟩
  | some x => exact .inr ⟨rfl, label, by rw [insertResource, h]; rfl⟩

/-- An admitted call returns `DuplicateResource` when its key is taken, and `Ok` otherwise. -/
theorem register_result (h : call.Admitted app) :
    (app.lookup call.key = none ∧ (app.register call).2 = .ok ()) ∨
      ((app.lookup call.key).isSome ∧ IsDuplicate (app.register call).2) := by
  cases call with
  | registerEndpointConsumer x => exact insertResource_result _ x.id x _
  | registerTaskPool x =>
    rw [Call.key, lookup_taskPool]
    exact insertResource_result _ x.name x _
  | registerPriorityTaskPool x =>
    rw [Call.key, lookup_priorityTaskPool]
    exact insertResource_result _ x.name x _
  | registerDataSource x =>
    have hc : app.ensureCreated = .ok () := h
    simp only [App.register, App.registerDataSource, hc]
    exact insertResource_result _ x.id x _
  | registerDataSink x =>
    have hc : app.ensureCreated = .ok () := h
    simp only [App.register, App.registerDataSink, hc]
    exact insertResource_result _ x.id x _

theorem ensureCreated_ne_duplicate : ¬ IsDuplicate app.ensureCreated := by
  rintro ⟨label, h⟩
  unfold App.ensureCreated at h
  split_ifs at h <;> cases h

/-- A call that is not admitted changes nothing and returns the error of `ensure_created`. -/
theorem register_refused (h : ¬ call.Admitted app) :
    (app.register call).1 = app ∧ (app.register call).2 = app.ensureCreated ∧
      app.ensureCreated ≠ .ok () := by
  cases call with
  | registerEndpointConsumer x | registerTaskPool x | registerPriorityTaskPool x =>
    exact absurd trivial h
  | registerDataSource x | registerDataSink x =>
    simp only [App.register, App.registerDataSource, App.registerDataSink]
    cases hc : app.ensureCreated with
    | ok _ => exact absurd hc h
    | error error => exact ⟨rfl, rfl, nofun⟩

/-- The service with the registries emptied. -/
def App.frame (app : App) : String × AppState × Bool := (app.name, app.state, app.locked)

theorem register_frame : (app.register call).1.frame = app.frame := by
  cases call with
  | registerEndpointConsumer x | registerTaskPool x | registerPriorityTaskPool x => rfl
  | registerDataSource x =>
    simp only [App.register, App.registerDataSource]
    cases app.ensureCreated <;> rfl
  | registerDataSink x =>
    simp only [App.register, App.registerDataSink]
    cases app.ensureCreated <;> rfl

/-- Registries are known by what the lookups return. -/
theorem App.ext_lookup {app' : App} (hframe : app.frame = app'.frame)
    (h : ∀ k, app.lookup k = app'.lookup k) : app = app' := by
  obtain ⟨name, state, locked, consumers, pools, priorityPools, sources, sinks⟩ := app
  obtain ⟨name', state', locked', consumers', pools', priorityPools', sources', sinks'⟩ := app'
  cases hframe
  have hconsumers : consumers = consumers' := Finmap.ext_lookup fun id => h (.endpointConsumer id)
  have hpools : pools = pools' := Finmap.ext_lookup fun name => by
    have := h (.taskPool name)
    rwa [lookup_taskPool, lookup_taskPool] at this
  have hpriority : priorityPools = priorityPools' := Finmap.ext_lookup fun name => by
    have := h (.priorityTaskPool name)
    rwa [lookup_priorityTaskPool, lookup_priorityTaskPool] at this
  have hsources : sources = sources' := Finmap.ext_lookup fun id => h (.dataSource id)
  have hsinks : sinks = sinks' := Finmap.ext_lookup fun id => h (.dataSink id)
  rw [hconsumers, hpools, hpriority, hsources, hsinks]

end Calls

/-! ## Main results -/

section Main

variable {name : String} {app : App} {call : Call} {k : Key} {x : Resource} {s : State}
  {orders : Orders}

/-- Exactly the fresh calls leave the registries alone when they return `DuplicateResource`. -/
theorem unchanged_iff_fresh :
    (IsDuplicate (app.register call).2 → (app.register call).1 = app) ↔ Fresh app call := by
  by_cases ha : call.Admitted app
  · rcases register_result ha with ⟨hnone, hok⟩ | ⟨hsome, hdup⟩
    · refine iff_of_true ?_ ?_
      · rintro ⟨label, herr⟩
        rw [hok] at herr
        cases herr
      · intro _ x hx
        rw [hnone] at hx
        cases hx
    · obtain ⟨y, hy⟩ := Option.isSome_iff_exists.mp hsome
      constructor
      · intro h _ x hx
        have hlookup := lookup_register (k := call.key) ha
        rw [h hdup, if_pos rfl, hx] at hlookup
        exact Option.some.inj hlookup
      · intro h _
        refine App.ext_lookup register_frame fun k => ?_
        rw [lookup_register ha]
        split_ifs with hk
        · rw [hk, hy, h ha y hy]
        · rfl
  · refine iff_of_true (fun hdup => (register_refused ha).1) fun hadm => absurd hadm ha

/-- The registered resources are those whose registration returned `Ok`. -/
def Inv (s : State) : Prop := ∀ k x, (k, x) ∈ s.accepted ↔ s.app.lookup k = some x

theorem lookup_new : (App.new name).lookup k = none := by
  cases k with
  | endpointConsumer id | dataSource id | dataSink id => exact Finmap.lookup_empty _
  | taskPool pool =>
    rw [lookup_taskPool]
    exact Finmap.lookup_empty _
  | priorityTaskPool pool =>
    rw [lookup_priorityTaskPool]
    exact Finmap.lookup_empty _

theorem Inv.register (h : Inv s) (hf : Fresh s.app call) : Inv (step s (.register call)) := by
  intro k x
  by_cases ha : call.Admitted s.app
  · rcases register_result ha with ⟨hnone, hok⟩ | ⟨-, label, herr⟩
    · -- A new key: the resource is accepted and put under it.
      simp only [step, hok, List.mem_append, List.mem_singleton, Prod.mk.injEq, lookup_register ha]
      split_ifs with hk
      · subst hk
        have hnew : (call.key, x) ∉ s.accepted := by
          rw [h, hnone]
          exact nofun
        simp only [hnew, true_and, false_or, Option.some.injEq]
        exact eq_comm
      · simp only [hk, false_and, or_false]
        exact h k x
    · -- The key is taken by this very resource.
      have hsame := unchanged_iff_fresh.mpr hf ⟨label, herr⟩
      simp only [step, herr, hsame]
      exact h k x
  · obtain ⟨hsame, hresult, hne⟩ := register_refused ha
    cases herr : s.app.ensureCreated with
    | ok _ => exact absurd herr hne
    | error error =>
      simp only [step, hresult, herr, hsame]
      exact h k x

theorem inv_of_reach (h : (system name).Reach FreshStep s) : Inv s := by
  refine h.invariant (fun k x => ?_) fun s a t hi ha hs => ?_
  · rw [show (system name).init.app.lookup k = none from lookup_new]
    exact iff_of_false List.not_mem_nil nofun
  · cases hs
    cases a with
    | register call => exact hi.register ha
    | lifecycle state locked =>
      intro k x
      rw [show (step s (.lifecycle state locked)).app.lookup k = s.app.lookup k by cases k <;> rfl]
      exact hi k x

/-- Endpoint consumers are neither started nor stopped by the service. -/
def Key.HasLifecycle : Key → Prop
  | .endpointConsumer _ => False
  | _ => True

theorem mem_values {K : Type} [DecidableEq K] {order : IterOrder K Resource} {key : K → Key}
    {registry : HashMap K Resource} :
    (k, x) ∈ values order key registry ↔ ∃ i, key i = k ∧ registry.lookup i = some x := by
  simp only [values, List.mem_map, Prod.mk.injEq]
  constructor
  · rintro ⟨⟨i, y⟩, hmem, rfl, rfl⟩
    exact ⟨i, rfl, order.mem_iter.mp hmem⟩
  · rintro ⟨i, rfl, hi⟩
    exact ⟨⟨i, x⟩, order.mem_iter.mpr hi, rfl, rfl⟩

theorem mem_started (hk : k.HasLifecycle) :
    (k, x) ∈ app.started orders true ↔ app.lookup k = some x := by
  simp only [App.started, List.mem_append, mem_values, if_true]
  cases k with
  | endpointConsumer id => exact hk.elim
  | taskPool pool => simp [lookup_taskPool]
  | priorityTaskPool pool => simp [lookup_priorityTaskPool]
  | dataSource id => simp [App.lookup, App.dataSource]
  | dataSink id => simp [App.lookup, App.dataSink]

theorem mem_stopped (hk : k.HasLifecycle) :
    (k, x) ∈ app.stopped orders ↔ app.lookup k = some x := by
  simp only [App.stopped, List.mem_append, mem_values]
  cases k with
  | endpointConsumer id => exact hk.elim
  | taskPool pool => simp [lookup_taskPool]
  | priorityTaskPool pool => simp [lookup_priorityTaskPool]
  | dataSource id => simp [App.lookup, App.dataSource]
  | dataSink id => simp [App.lookup, App.dataSink]

/-- **Registration.** A call that returns `DuplicateResource` leaves every registry as it was if and
only if it is fresh. In every sequence of fresh calls, the resource whose registration under a key
returned `Ok` is the one that lookups return, and the only one under that key that the service
starts and stops. -/
theorem registration_atomic (h : (system name).Reach FreshStep s) :
    (∀ app call, (IsDuplicate (App.register app call).2 → (app.register call).1 = app) ↔
      Fresh app call) ∧
    ∀ k x, (k, x) ∈ s.accepted →
      s.app.lookup k = some x ∧
      (k.HasLifecycle → ∀ orders y,
        ((k, y) ∈ s.app.started orders true ↔ y = x) ∧
        ((k, y) ∈ s.app.stopped orders ↔ y = x)) := by
  refine ⟨fun app call => unchanged_iff_fresh, fun k x hx => ?_⟩
  have hlookup := (inv_of_reach h k x).mp hx
  refine ⟨hlookup, fun hk orders y => ?_⟩
  rw [mem_started hk, mem_stopped hk, hlookup, Option.some.injEq, eq_comm]
  exact ⟨Iff.rfl, Iff.rfl⟩

/-- Two task pools of one name. -/
def firstPool : Resource := ⟨0, "workers", 1⟩

def secondPool : Resource := ⟨0, "workers", 2⟩

theorem lookup_registerTaskPool (app : App) (pool : Resource) :
    (app.registerTaskPool pool).1.taskPool pool.name = .ok pool := by
  rw [App.taskPool]
  simp only [App.registerTaskPool, insertResource, Finmap.lookup_insert]

/-- The second pool of a name is refused, and is then the registered one; the first pool, whose
registration returned `Ok`, is neither found, nor started, nor stopped. -/
theorem duplicate_replaces :
    ((App.new "service").registerTaskPool firstPool).2 = .ok () ∧
    (((App.new "service").registerTaskPool firstPool).1.registerTaskPool secondPool).2 =
      .error (.duplicateResource "workers") ∧
    (((App.new "service").registerTaskPool firstPool).1.registerTaskPool secondPool).1.taskPool
      "workers" = .ok secondPool ∧
    ∀ orders, (.taskPool "workers", firstPool) ∉
        (((App.new "service").registerTaskPool firstPool).1.registerTaskPool secondPool).1.started
          orders true ∧
      (.taskPool "workers", firstPool) ∉
        (((App.new "service").registerTaskPool firstPool).1.registerTaskPool secondPool).1.stopped
          orders := by
  have hlookup := lookup_registerTaskPool ((App.new "service").registerTaskPool firstPool).1
    secondPool
  have hkey : (((App.new "service").registerTaskPool firstPool).1.registerTaskPool
      secondPool).1.lookup (.taskPool "workers") = some secondPool := by
    rw [App.lookup]
    exact congrArg Except.toOption hlookup
  refine ⟨by decide +kernel, by decide +kernel, hlookup, fun orders => ⟨?_, ?_⟩⟩
  · rw [mem_started (k := .taskPool "workers") trivial, hkey]
    exact nofun
  · rw [mem_stopped (k := .taskPool "workers") trivial, hkey]
    exact nofun

def ordersSource : Resource := ⟨7, "orders", 1⟩

/-- A data source that is registered twice. The second call is refused and changes nothing. -/
theorem registration_atomic_twice :
    ∃ s, (system "service").Reach FreshStep s ∧ s.accepted = [(.dataSource 7, ordersSource)] ∧
      s.app.lookup (.dataSource 7) = some ordersSource := by
  have hfresh : Fresh (App.new "service") (.registerDataSource ordersSource) := by
    intro _ x hx
    rw [lookup_new] at hx
    cases hx
  have h1 : (system "service").Reach FreshStep _ :=
    .step (a := .register (.registerDataSource ordersSource)) .init hfresh rfl
  have hsame : Fresh ((App.new "service").registerDataSource ordersSource).1
      (.registerDataSource ordersSource) := by
    intro _ x hx
    have hlookup : ((App.new "service").registerDataSource ordersSource).1.lookup (.dataSource 7) =
        some ordersSource := by decide +kernel
    exact Option.some.inj (hx.symm.trans hlookup)
  have h2 : (system "service").Reach FreshStep _ :=
    .step (a := .register (.registerDataSource ordersSource)) h1 hsame rfl
  refine ⟨_, h2, by decide +kernel, ?_⟩
  exact ((registration_atomic h2).2 (.dataSource 7) ordersSource (by decide +kernel)).1

end Main

end Registration

end ServiceLib
