import ServiceLib.HashMap
import ServiceLib.While
import ServiceLib.Runtime.Error

/-!
# The runtime configuration and its pools

Three traversals of one configuration have to agree:

* `RuntimeConfig::from_parts` in `src/runtime/config/runtime.rs` validates the parts, indexes them
  and completes the pools;
* `register_configured_pools` in `src/runtime/serviceapp.rs` creates the pools of a service;
* `call_semantics` in `src/runtime/environment/mod.rs` selects the semantics of a link, and
  `LinkCollector::new` in `src/runtime/collector.rs` looks its pool up.

`runtime_config_coherent`: a configuration that is accepted is coherent, one that is not well formed
is refused, and in a service that was created from it every link finds its pool.

A map is iterated in any order. The outcome of creating a pool's metrics is arbitrary, and so is the
`Debug` text of a string, which appears in error messages.
-/

namespace ServiceLib

namespace Configuration

/-! ## Data -/

inductive CallSemantics
  | functionCall
  | parallelCall
  | taskPool (poolName : String)
  | priorityTaskPool (poolName : String) (priority : ℤ)
  deriving DecidableEq

structure ServiceConfig where
  id : ℤ
  name : String
  defaultCallSemantics : CallSemantics
  deriving DecidableEq

structure PoolConfig where
  name : String
  executorsCount : ℕ
  queueCapacity : ℕ
  deriving DecidableEq

structure LinkConfig where
  fromId : ℤ
  toId : ℤ
  callSemantics : CallSemantics
  async : Bool
  deriving DecidableEq

/-- The key of a link. -/
def LinkConfig.ends (link : LinkConfig) : ℤ × ℤ := (link.fromId, link.toId)

structure StreamConfig where
  id : ℤ
  name : String
  deriving DecidableEq

/-- Every variant of the source has a `StreamConfig`. -/
structure RuntimeStreamConfig where
  stream : StreamConfig
  deriving DecidableEq

inductive DataConnectorType
  | http
  | grpc
  | kafka
  | cron
  | temporal
  | custom
  deriving DecidableEq

/-- The fields that all data connectors have. -/
structure DataConnectorConfig where
  id : ℤ
  name : String
  deriving DecidableEq

inductive RuntimeDataConnectorConfig
  | http (config : DataConnectorConfig)
  | grpc (config : DataConnectorConfig)
  | kafka (config : DataConnectorConfig)
  | cron (config : DataConnectorConfig)
  | temporal (config : DataConnectorConfig)
  | custom (config : DataConnectorConfig)
  deriving DecidableEq

namespace RuntimeDataConnectorConfig

def config : RuntimeDataConnectorConfig → DataConnectorConfig
  | http config | grpc config | kafka config | cron config | temporal config | custom config =>
    config

def id (connector : RuntimeDataConnectorConfig) : ℤ := connector.config.id

def name (connector : RuntimeDataConnectorConfig) : String := connector.config.name

def connectorType : RuntimeDataConnectorConfig → DataConnectorType
  | http _ => .http
  | grpc _ => .grpc
  | kafka _ => .kafka
  | cron _ => .cron
  | temporal _ => .temporal
  | custom _ => .custom

end RuntimeDataConnectorConfig

/-- The fields that all endpoints have. -/
structure EndpointConfig where
  id : ℤ
  name : String
  idDataConnector : ℤ
  deriving DecidableEq

inductive RuntimeEndpointConfig
  | http (config : EndpointConfig)
  | grpc (config : EndpointConfig)
  | kafka (config : EndpointConfig)
  | cron (config : EndpointConfig) (timezone : String)
  | temporal (config : EndpointConfig) (schedule timezone : String)
  | custom (config : EndpointConfig)
  deriving DecidableEq

namespace RuntimeEndpointConfig

def config : RuntimeEndpointConfig → EndpointConfig
  | http config | grpc config | kafka config | cron config _ | temporal config _ _
  | custom config => config

def id (endpoint : RuntimeEndpointConfig) : ℤ := endpoint.config.id

def name (endpoint : RuntimeEndpointConfig) : String := endpoint.config.name

def dataConnectorId (endpoint : RuntimeEndpointConfig) : ℤ := endpoint.config.idDataConnector

def connectorType : RuntimeEndpointConfig → DataConnectorType
  | http _ => .http
  | grpc _ => .grpc
  | kafka _ => .kafka
  | cron _ _ => .cron
  | temporal _ _ _ => .temporal
  | custom _ => .custom

end RuntimeEndpointConfig

/-- The arguments of `from_parts`. -/
structure Parts where
  defaultCallSemantics : CallSemantics
  services : List ServiceConfig
  streams : List RuntimeStreamConfig
  pools : List PoolConfig
  dataConnectors : List RuntimeDataConnectorConfig
  endpoints : List RuntimeEndpointConfig
  links : List LinkConfig

/-- The two indices of a kind of resource. -/
structure Indices (V : Type) where
  byId : HashMap ℤ V
  byName : HashMap String V

def Indices.empty {V : Type} : Indices V := ⟨∅, ∅⟩

structure RuntimeConfig where
  defaultCallSemantics : CallSemantics
  services : Indices ServiceConfig
  streams : Indices RuntimeStreamConfig
  poolsByName : HashMap String PoolConfig
  dataConnectors : Indices RuntimeDataConnectorConfig
  endpoints : Indices RuntimeEndpointConfig
  links : HashMap (ℤ × ℤ) LinkConfig

def RuntimeConfig.withDefaultCallSemantics (semantics : CallSemantics) : RuntimeConfig where
  defaultCallSemantics := semantics
  services := .empty
  streams := .empty
  poolsByName := ∅
  dataConnectors := .empty
  endpoints := .empty
  links := ∅

/-! ## `from_parts` -/

def duplicate (kind : String) (id : ℤ) : RuntimeError :=
  .invalidConfiguration s!"duplicate {kind}: {id}"

def duplicateName (kind name : String) : RuntimeError :=
  .invalidConfiguration s!"duplicate {kind} name: {name}"

/-- Refuse an id or a name that is taken. -/
def Indices.checkNew {V : Type} (indices : Indices V) (kindId kind : String) (id : ℤ)
    (name : String) : RuntimeResult Unit :=
  if id ∈ indices.byId then .error (duplicate kindId id)
  else if name ∈ indices.byName then .error (duplicateName kind name)
  else .ok ()

def Indices.insert {V : Type} (indices : Indices V) (id : ℤ) (name : String) (value : V) :
    Indices V :=
  ⟨indices.byId.insert id value, indices.byName.insert name value⟩

namespace RuntimeConfig

def addService (runtime : RuntimeConfig) (service : ServiceConfig) :
    RuntimeResult RuntimeConfig := do
  runtime.services.checkNew "service id" "service" service.id service.name
  return { runtime with services := runtime.services.insert service.id service.name service }

def addStream (runtime : RuntimeConfig) (stream : RuntimeStreamConfig) :
    RuntimeResult RuntimeConfig := do
  runtime.streams.checkNew "stream id" "stream" stream.stream.id stream.stream.name
  return { runtime with
    streams := runtime.streams.insert stream.stream.id stream.stream.name stream }

def addPool (runtime : RuntimeConfig) (pool : PoolConfig) : RuntimeResult RuntimeConfig :=
  if pool.name ∈ runtime.poolsByName then .error (duplicateName "pool" pool.name)
  else .ok { runtime with poolsByName := runtime.poolsByName.insert pool.name pool }

def addDataConnector (runtime : RuntimeConfig) (connector : RuntimeDataConnectorConfig) :
    RuntimeResult RuntimeConfig := do
  runtime.dataConnectors.checkNew "data connector id" "data connector" connector.id connector.name
  return { runtime with
    dataConnectors := runtime.dataConnectors.insert connector.id connector.name connector }

/-- Scheduled endpoints need the timezone UTC. -/
def checkTimezone (debug : String → String) : RuntimeEndpointConfig → RuntimeResult Unit
  | .cron config timezone =>
    if timezone ≠ "UTC" then
      let name := debug config.name
      .error (.invalidConfiguration s!"Cron endpoint {name} requires timezone UTC")
    else .ok ()
  | .temporal config schedule timezone =>
    if schedule ≠ "" ∧ timezone ≠ "UTC" then
      let name := debug config.name
      .error (.invalidConfiguration s!"scheduled Temporal endpoint {name} requires timezone UTC")
    else .ok ()
  | _ => .ok ()

def addEndpoint (debug : String → String) (runtime : RuntimeConfig)
    (endpoint : RuntimeEndpointConfig) : RuntimeResult RuntimeConfig := do
  runtime.endpoints.checkNew "endpoint id" "endpoint" endpoint.id endpoint.name
  let name := debug endpoint.name
  let id := endpoint.dataConnectorId
  match runtime.dataConnectors.byId.lookup id with
  | none =>
    throw (.invalidConfiguration s!"endpoint {name} references unknown data connector {id}")
  | some connector =>
    if connector.connectorType ≠ endpoint.connectorType then
      let connectorName := debug connector.name
      throw (.invalidConfiguration
        s!"endpoint {name} type does not match data connector {connectorName}")
    checkTimezone debug endpoint
    return { runtime with
      endpoints := runtime.endpoints.insert endpoint.id endpoint.name endpoint }

def addLink (runtime : RuntimeConfig) (link : LinkConfig) : RuntimeResult RuntimeConfig :=
  if link.ends ∈ runtime.links then
    let source := link.fromId
    let target := link.toId
    .error (.invalidConfiguration s!"duplicate link from={source} to={target}")
  else .ok { runtime with links := runtime.links.insert link.ends link }

end RuntimeConfig

/-- The pool that call semantics name. -/
def CallSemantics.poolName : CallSemantics → Option String
  | taskPool poolName | priorityTaskPool poolName _ => some poolName
  | _ => none

/-- The orders in which the services and the links of a configuration are iterated. -/
structure Orders where
  services : IterOrder ℤ ServiceConfig
  links : IterOrder (ℤ × ℤ) LinkConfig

/-- `services_by_id.values()`. -/
def RuntimeConfig.serviceList (orders : Orders) (runtime : RuntimeConfig) : List ServiceConfig :=
  (orders.services.iter runtime.services.byId).map Sigma.snd

/-- `links.values()`. -/
def RuntimeConfig.linkList (orders : Orders) (runtime : RuntimeConfig) : List LinkConfig :=
  (orders.links.iter runtime.links).map Sigma.snd

/-- `referenced_pools`. -/
def RuntimeConfig.referencedPools (orders : Orders) (runtime : RuntimeConfig) :
    List CallSemantics :=
  runtime.defaultCallSemantics ::
    ((runtime.serviceList orders).map ServiceConfig.defaultCallSemantics ++
      (runtime.linkList orders).map LinkConfig.callSemantics)

/-- `entry(pool_name).or_insert_with(..)`, if the semantics name a pool. -/
def completePool (pools : HashMap String PoolConfig) (semantics : CallSemantics) :
    HashMap String PoolConfig :=
  match semantics.poolName with
  | some name => if name ∈ pools then pools else pools.insert name ⟨name, 1, 0⟩
  | none => pools

def fromParts (debug : String → String) (orders : Orders) (parts : Parts) :
    RuntimeResult RuntimeConfig := do
  let runtime := RuntimeConfig.withDefaultCallSemantics parts.defaultCallSemantics
  let runtime ← parts.services.foldlM RuntimeConfig.addService runtime
  let runtime ← parts.streams.foldlM RuntimeConfig.addStream runtime
  let runtime ← parts.pools.foldlM RuntimeConfig.addPool runtime
  let runtime ← parts.dataConnectors.foldlM RuntimeConfig.addDataConnector runtime
  let runtime ← parts.endpoints.foldlM (RuntimeConfig.addEndpoint debug) runtime
  let runtime ← parts.links.foldlM RuntimeConfig.addLink runtime
  return { runtime with
    poolsByName := (runtime.referencedPools orders).foldl completePool runtime.poolsByName }

/-! ## The pools of a service -/

structure TaskPool where
  name : String
  deriving DecidableEq

structure PriorityTaskPool where
  name : String
  deriving DecidableEq

structure RuntimeEnvironment where
  serviceId : Option ℤ
  runtimeConfig : RuntimeConfig
  taskPools : HashMap String TaskPool
  priorityTaskPools : HashMap String PriorityTaskPool

namespace RuntimeEnvironment

def forService (environment : RuntimeEnvironment) (serviceId : ℤ) : RuntimeEnvironment :=
  { environment with serviceId := some serviceId }

/-- The default of the environment's service, if there is such a service. -/
def serviceDefault (environment : RuntimeEnvironment) : Option CallSemantics :=
  (environment.serviceId.bind fun id => environment.runtimeConfig.services.byId.lookup id).map
    ServiceConfig.defaultCallSemantics

def callSemantics (environment : RuntimeEnvironment) (fromId toId : ℤ) : CallSemantics :=
  match environment.runtimeConfig.links.lookup (fromId, toId) with
  | some link => link.callSemantics
  | none => environment.serviceDefault.getD environment.runtimeConfig.defaultCallSemantics

def taskPool (environment : RuntimeEnvironment) (name : String) : RuntimeResult TaskPool :=
  match environment.taskPools.lookup name with
  | some pool => .ok pool
  | none => .error (.taskPoolNotFound name)

def priorityTaskPool (environment : RuntimeEnvironment) (name : String) :
    RuntimeResult PriorityTaskPool :=
  match environment.priorityTaskPools.lookup name with
  | some pool => .ok pool
  | none => .error (.priorityTaskPoolNotFound name)

/-- A pool that replaces another one is registered all the same. -/
def registerTaskPool (environment : RuntimeEnvironment) (pool : TaskPool) :
    RuntimeResult Unit × RuntimeEnvironment :=
  (if pool.name ∈ environment.taskPools then .error (.duplicateResource pool.name) else .ok (),
    { environment with taskPools := environment.taskPools.insert pool.name pool })

def registerPriorityTaskPool (environment : RuntimeEnvironment) (pool : PriorityTaskPool) :
    RuntimeResult Unit × RuntimeEnvironment :=
  (if pool.name ∈ environment.priorityTaskPools then .error (.duplicateResource pool.name)
    else .ok (),
    { environment with
      priorityTaskPools := environment.priorityTaskPools.insert pool.name pool })

end RuntimeEnvironment

/-- `PoolMetrics::new` for a pool of this name, `true` for a priority pool. -/
abbrev PoolMetrics := Bool → String → RuntimeResult Unit

/-- `QueuedPool::new`: a pool has to be configured. -/
def newQueuedPool (metrics : PoolMetrics) (environment : RuntimeEnvironment) (name : String)
    (priority : Bool) : RuntimeResult Unit :=
  if name ∈ environment.runtimeConfig.poolsByName then metrics priority name
  else .error (if priority then .priorityTaskPoolNotFound name else .taskPoolNotFound name)

/-- One round of `register_configured_pools`. -/
def registerConfiguredPool (metrics : PoolMetrics) (environment : RuntimeEnvironment) :
    CallSemantics → RuntimeResult Unit × RuntimeEnvironment
  | .taskPool name =>
    match environment.taskPool name with
    | .ok _ => (.ok (), environment)
    | .error _ =>
      match newQueuedPool metrics environment name false with
      | .ok () => environment.registerTaskPool ⟨name⟩
      | .error error => (.error error, environment)
  | .priorityTaskPool name _ =>
    match environment.priorityTaskPool name with
    | .ok _ => (.ok (), environment)
    | .error _ =>
      match newQueuedPool metrics environment name true with
      | .ok () => environment.registerPriorityTaskPool ⟨name⟩
      | .error error => (.error error, environment)
  | .functionCall | .parallelCall => (.ok (), environment)

/-- The loop of `register_configured_pools`; the first error ends it. -/
def registerPools (metrics : PoolMetrics) (environment : RuntimeEnvironment) :
    List CallSemantics → RuntimeResult Unit × RuntimeEnvironment
  | [] => (.ok (), environment)
  | semantics :: rest =>
    match registerConfiguredPool metrics environment semantics with
    | (.ok (), environment) => registerPools metrics environment rest
    | (.error error, environment) => (.error error, environment)

def registerConfiguredPools (metrics : PoolMetrics) (orders : Orders)
    (environment : RuntimeEnvironment) : RuntimeResult Unit × RuntimeEnvironment :=
  let runtime := environment.runtimeConfig
  registerPools metrics environment
    ((runtime.linkList orders).map LinkConfig.callSemantics ++
      [environment.serviceDefault.getD runtime.defaultCallSemantics])

/-- `ServiceApp::new`, as far as it decides about success: the environment of the new app. -/
def newServiceApp (metrics : PoolMetrics) (orders : Orders) (environment : RuntimeEnvironment)
    (config : ServiceConfig) : RuntimeResult Unit × RuntimeEnvironment :=
  registerConfiguredPools metrics orders (environment.forService config.id)

inductive Caller
  | functionCall (async : Bool)
  | parallelCall
  | taskPool (pool : TaskPool)
  | priorityTaskPool (pool : PriorityTaskPool) (priority : ℤ)

/-- The caller that `LinkCollector::new` selects. -/
def linkCaller (environment : RuntimeEnvironment) (functionCallAsync : Bool) :
    CallSemantics → RuntimeResult Caller
  | .functionCall => .ok (.functionCall functionCallAsync)
  | .parallelCall => .ok .parallelCall
  | .taskPool name => (environment.taskPool name).map .taskPool
  | .priorityTaskPool name priority =>
    (environment.priorityTaskPool name).map fun pool => .priorityTaskPool pool priority

/-! ## What the loops build -/

/-- Both indices hold the values of the list. -/
structure Indices.Holds {V : Type} (idOf : V → ℤ) (nameOf : V → String) (indices : Indices V)
    (l : List V) : Prop where
  byId : Keyed idOf indices.byId l
  byName : Keyed nameOf indices.byName l

theorem holds_empty {V : Type} {idOf : V → ℤ} {nameOf : V → String} :
    Indices.Holds idOf nameOf .empty [] :=
  ⟨keyed_empty, keyed_empty⟩

theorem checkNew_eq_ok {V : Type} {indices : Indices V} {kindId kind name : String} {id : ℤ}
    {u : Unit} :
    indices.checkNew kindId kind id name = .ok u ↔ id ∉ indices.byId ∧ name ∉ indices.byName := by
  unfold Indices.checkNew
  split_ifs with hid hname
  · exact ⟨nofun, fun h => absurd hid h.1⟩
  · exact ⟨nofun, fun h => absurd hname h.2⟩
  · exact ⟨fun _ => ⟨hid, hname⟩, fun _ => rfl⟩

/-- A value that was checked is inserted into both indices. -/
theorem Indices.Holds.insert {V : Type} {idOf : V → ℤ} {nameOf : V → String} {indices : Indices V}
    {l : List V} (h : indices.Holds idOf nameOf l) {kindId kind : String} {v : V} {u : Unit}
    (hv : indices.checkNew kindId kind (idOf v) (nameOf v) = .ok u) :
    (indices.insert (idOf v) (nameOf v) v).Holds idOf nameOf (l ++ [v]) := by
  obtain ⟨hid, hname⟩ := checkNew_eq_ok.1 hv
  exact ⟨h.byId.insert hid, h.byName.insert hname⟩

/-- An endpoint has a connector of its own type. -/
def RuntimeConfig.Connected (runtime : RuntimeConfig) (endpoint : RuntimeEndpointConfig) : Prop :=
  ∃ connector, runtime.dataConnectors.byId.lookup endpoint.dataConnectorId = some connector ∧
    connector.connectorType = endpoint.connectorType

/-- The configuration after the loops have passed these parts. -/
structure Loaded (parts : Parts) (runtime : RuntimeConfig) : Prop where
  defaultCallSemantics : runtime.defaultCallSemantics = parts.defaultCallSemantics
  services : runtime.services.Holds ServiceConfig.id ServiceConfig.name parts.services
  streams : runtime.streams.Holds (fun s => s.stream.id) (fun s => s.stream.name) parts.streams
  pools : Keyed PoolConfig.name runtime.poolsByName parts.pools
  dataConnectors : runtime.dataConnectors.Holds RuntimeDataConnectorConfig.id
    RuntimeDataConnectorConfig.name parts.dataConnectors
  endpoints : runtime.endpoints.Holds RuntimeEndpointConfig.id RuntimeEndpointConfig.name
    parts.endpoints
  connected : ∀ endpoint ∈ parts.endpoints, runtime.Connected endpoint
  links : Keyed LinkConfig.ends runtime.links parts.links

variable {parts : Parts} {runtime runtime' : RuntimeConfig}

theorem loaded_init (semantics : CallSemantics) :
    Loaded ⟨semantics, [], [], [], [], [], []⟩ (.withDefaultCallSemantics semantics) :=
  ⟨rfl, holds_empty, holds_empty, keyed_empty, holds_empty, holds_empty, nofun, keyed_empty⟩

theorem Loaded.addService (h : Loaded parts runtime) {service : ServiceConfig}
    (hs : runtime.addService service = .ok runtime') :
    Loaded { parts with services := parts.services ++ [service] } runtime' := by
  obtain ⟨u, hu, hs⟩ := except_bind_eq_ok.1 hs
  cases hs
  exact { h with services := h.services.insert hu }

theorem Loaded.addStream (h : Loaded parts runtime) {stream : RuntimeStreamConfig}
    (hs : runtime.addStream stream = .ok runtime') :
    Loaded { parts with streams := parts.streams ++ [stream] } runtime' := by
  obtain ⟨u, hu, hs⟩ := except_bind_eq_ok.1 hs
  cases hs
  exact { h with streams := h.streams.insert hu }

theorem Loaded.addPool (h : Loaded parts runtime) {pool : PoolConfig}
    (hs : runtime.addPool pool = .ok runtime') :
    Loaded { parts with pools := parts.pools ++ [pool] } runtime' := by
  unfold RuntimeConfig.addPool at hs
  split_ifs at hs with hpool
  cases hs
  exact { h with pools := h.pools.insert hpool }

/-- Connectors come before endpoints. -/
theorem Loaded.addDataConnector (h : Loaded parts runtime) (he : parts.endpoints = [])
    {connector : RuntimeDataConnectorConfig}
    (hs : runtime.addDataConnector connector = .ok runtime') :
    Loaded { parts with dataConnectors := parts.dataConnectors ++ [connector] } runtime' := by
  obtain ⟨u, hu, hs⟩ := except_bind_eq_ok.1 hs
  cases hs
  refine { h with dataConnectors := h.dataConnectors.insert hu, connected := ?_ }
  intro endpoint hmem
  rw [he] at hmem
  cases hmem

theorem addEndpoint_eq_ok {debug : String → String} {endpoint : RuntimeEndpointConfig}
    (hs : runtime.addEndpoint debug endpoint = .ok runtime') :
    (∃ u, runtime.endpoints.checkNew "endpoint id" "endpoint" endpoint.id endpoint.name = .ok u) ∧
    runtime.Connected endpoint ∧
    runtime' = { runtime with
      endpoints := runtime.endpoints.insert endpoint.id endpoint.name endpoint } := by
  obtain ⟨u, hu, hs⟩ := except_bind_eq_ok.1 hs
  dsimp only at hs
  split at hs
  · cases hs
  · rename_i connector hc
    by_cases htype : connector.connectorType = endpoint.connectorType
    · rw [if_neg (not_not.2 htype)] at hs
      obtain ⟨-, -, hs⟩ := except_bind_eq_ok.1 hs
      cases hs
      exact ⟨⟨u, hu⟩, ⟨connector, hc, htype⟩, rfl⟩
    · rw [if_pos htype] at hs
      cases hs

theorem Loaded.addEndpoint (h : Loaded parts runtime) {debug : String → String}
    {endpoint : RuntimeEndpointConfig} (hs : runtime.addEndpoint debug endpoint = .ok runtime') :
    Loaded { parts with endpoints := parts.endpoints ++ [endpoint] } runtime' := by
  obtain ⟨⟨u, hu⟩, hc, rfl⟩ := addEndpoint_eq_ok hs
  refine { h with endpoints := h.endpoints.insert hu, connected := ?_ }
  intro e he
  rcases List.mem_append.1 he with he | he
  · exact h.connected e he
  · rw [List.mem_singleton.1 he]
    exact hc

theorem Loaded.addLink (h : Loaded parts runtime) {link : LinkConfig}
    (hs : runtime.addLink link = .ok runtime') :
    Loaded { parts with links := parts.links ++ [link] } runtime' := by
  unfold RuntimeConfig.addLink at hs
  split_ifs at hs with hlink
  cases hs
  exact { h with links := h.links.insert hlink }

/-- **A configuration that is accepted has been loaded**, and then its pools were completed. -/
theorem fromParts_eq_ok {debug : String → String} {orders : Orders}
    (h : fromParts debug orders parts = .ok runtime') :
    ∃ runtime, Loaded parts runtime ∧ runtime' = { runtime with
      poolsByName := (runtime.referencedPools orders).foldl completePool runtime.poolsByName } := by
  obtain ⟨semantics, services, streams, pools, dataConnectors, endpoints, links⟩ := parts
  obtain ⟨r1, h1, h⟩ := except_bind_eq_ok.1 h
  obtain ⟨r2, h2, h⟩ := except_bind_eq_ok.1 h
  obtain ⟨r3, h3, h⟩ := except_bind_eq_ok.1 h
  obtain ⟨r4, h4, h⟩ := except_bind_eq_ok.1 h
  obtain ⟨r5, h5, h⟩ := except_bind_eq_ok.1 h
  obtain ⟨r6, h6, h⟩ := except_bind_eq_ok.1 h
  have l1 := foldlM_rule (I := fun l r => Loaded ⟨semantics, l, [], [], [], [], []⟩ r)
    (fun _ _ _ _ hl hs => hl.addService hs) (loaded_init semantics) h1
  have l2 := foldlM_rule (I := fun l r => Loaded ⟨semantics, services, l, [], [], [], []⟩ r)
    (fun _ _ _ _ hl hs => hl.addStream hs) l1 h2
  have l3 := foldlM_rule (I := fun l r => Loaded ⟨semantics, services, streams, l, [], [], []⟩ r)
    (fun _ _ _ _ hl hs => hl.addPool hs) l2 h3
  have l4 := foldlM_rule
    (I := fun l r => Loaded ⟨semantics, services, streams, pools, l, [], []⟩ r)
    (fun _ _ _ _ hl hs => hl.addDataConnector rfl hs) l3 h4
  have l5 := foldlM_rule
    (I := fun l r => Loaded ⟨semantics, services, streams, pools, dataConnectors, l, []⟩ r)
    (fun _ _ _ _ hl hs => hl.addEndpoint hs) l4 h5
  have l6 := foldlM_rule
    (I := fun l r => Loaded ⟨semantics, services, streams, pools, dataConnectors, endpoints, l⟩ r)
    (fun _ _ _ _ hl hs => hl.addLink hs) l5 h6
  cases h
  exact ⟨r6, l6, rfl⟩

/-! ## The pools of an accepted configuration -/

/-- Completing the pools keeps what is there, adds what is named, and adds it under its name. -/
theorem completePools {l : List CallSemantics} {pools : HashMap String PoolConfig}
    (hown : ∀ n p, pools.lookup n = some p → p.name = n) :
    (∀ n p, pools.lookup n = some p → (l.foldl completePool pools).lookup n = some p) ∧
    (∀ semantics ∈ l, ∀ n, semantics.poolName = some n → n ∈ l.foldl completePool pools) ∧
    ∀ n p, (l.foldl completePool pools).lookup n = some p → p.name = n := by
  induction l generalizing pools with
  | nil => exact ⟨fun _ _ => id, nofun, hown⟩
  | cons semantics l ih =>
    rw [List.foldl_cons]
    have hkeep : ∀ n p, pools.lookup n = some p →
        (completePool pools semantics).lookup n = some p := by
      intro n p hp
      unfold completePool
      split
      · split_ifs with hmem
        · exact hp
        · rw [Finmap.lookup_insert_of_ne, hp]
          rintro rfl
          exact hmem (Finmap.mem_of_lookup_eq_some hp)
      · exact hp
    have hown' : ∀ n p, (completePool pools semantics).lookup n = some p → p.name = n := by
      intro n p hp
      unfold completePool at hp
      split at hp
      · rename_i name _
        split_ifs at hp with hmem
        · exact hown n p hp
        · by_cases hn : n = name
          · subst hn
            rw [Finmap.lookup_insert, Option.some.injEq] at hp
            exact hp ▸ rfl
          · rw [Finmap.lookup_insert_of_ne _ hn] at hp
            exact hown n p hp
      · exact hown n p hp
    obtain ⟨ih1, ih2, ih3⟩ := ih hown'
    refine ⟨fun n p hp => ih1 n p (hkeep n p hp), ?_, ih3⟩
    intro other hmem n hn
    rcases List.mem_cons.1 hmem with rfl | hmem
    · have hin : n ∈ completePool pools other := by
        unfold completePool
        rw [hn]
        dsimp only
        split_ifs with hold
        · exact hold
        · exact Finmap.mem_insert.2 (.inl rfl)
      obtain ⟨p, hp⟩ := Finmap.mem_iff.1 hin
      exact Finmap.mem_of_lookup_eq_some (ih1 n p hp)
    · exact ih2 other hmem n hn

theorem mem_serviceList {orders : Orders} {service : ServiceConfig} :
    service ∈ runtime.serviceList orders ↔
      ∃ id, runtime.services.byId.lookup id = some service := by
  unfold RuntimeConfig.serviceList
  rw [List.mem_map]
  constructor
  · rintro ⟨⟨id, v⟩, hmem, rfl⟩
    exact ⟨id, orders.services.mem_iter.1 hmem⟩
  · rintro ⟨id, hl⟩
    exact ⟨⟨id, service⟩, orders.services.mem_iter.2 hl, rfl⟩

theorem mem_linkList {orders : Orders} {link : LinkConfig} :
    link ∈ runtime.linkList orders ↔ ∃ ends, runtime.links.lookup ends = some link := by
  unfold RuntimeConfig.linkList
  rw [List.mem_map]
  constructor
  · rintro ⟨⟨ends, v⟩, hmem, rfl⟩
    exact ⟨ends, orders.links.mem_iter.1 hmem⟩
  · rintro ⟨ends, hl⟩
    exact ⟨⟨ends, link⟩, orders.links.mem_iter.2 hl, rfl⟩

/-! ## Coherence -/

/-- An id and a name under which the same value is found. -/
def Indices.Same {V : Type} (indices : Indices V) (id : ℤ) (name : String) : Prop :=
  ∃ value, indices.byId.lookup id = some value ∧ indices.byName.lookup name = some value

/-- The indices hold the configured values, each under its own id and its own name, and ids and
names correspond to each other one to one. -/
structure Indices.Coherent {V : Type} (idOf : V → ℤ) (nameOf : V → String) (indices : Indices V)
    (l : List V) : Prop where
  byId : ∀ id v, indices.byId.lookup id = some v ↔ v ∈ l ∧ idOf v = id
  byName : ∀ name v, indices.byName.lookup name = some v ↔ v ∈ l ∧ nameOf v = name
  forth : ∀ id ∈ indices.byId, ∃! name, indices.Same id name
  back : ∀ name ∈ indices.byName, ∃! id, indices.Same id name

theorem Indices.Holds.coherent {V : Type} {idOf : V → ℤ} {nameOf : V → String}
    {indices : Indices V} {l : List V} (h : indices.Holds idOf nameOf l) :
    indices.Coherent idOf nameOf l where
  byId := h.byId.lookup
  byName := h.byName.lookup
  forth := by
    intro id hid
    obtain ⟨v, hv⟩ := Finmap.mem_iff.1 hid
    have hmem := (h.byId.lookup id v).1 hv
    refine ⟨nameOf v, ⟨v, hv, (h.byName.lookup _ v).2 ⟨hmem.1, rfl⟩⟩, ?_⟩
    rintro name ⟨w, hw, hname⟩
    cases hv.symm.trans hw
    exact ((h.byName.lookup name v).1 hname).2.symm
  back := by
    intro name hname
    obtain ⟨v, hv⟩ := Finmap.mem_iff.1 hname
    have hmem := (h.byName.lookup name v).1 hv
    refine ⟨idOf v, ⟨v, (h.byId.lookup _ v).2 ⟨hmem.1, rfl⟩, hv⟩, ?_⟩
    rintro id ⟨w, hid, hw⟩
    cases hv.symm.trans hw
    exact ((h.byId.lookup id v).1 hid).2.symm

/-- The call semantics that are the default, that of a service, or that of a link. -/
def RuntimeConfig.Names (runtime : RuntimeConfig) (semantics : CallSemantics) : Prop :=
  semantics = runtime.defaultCallSemantics ∨
  (∃ id service, runtime.services.byId.lookup id = some service ∧
    semantics = service.defaultCallSemantics) ∨
  ∃ ends link, runtime.links.lookup ends = some link ∧ semantics = link.callSemantics

structure Coherent (parts : Parts) (runtime : RuntimeConfig) : Prop where
  services : runtime.services.Coherent ServiceConfig.id ServiceConfig.name parts.services
  streams : runtime.streams.Coherent (fun s => s.stream.id) (fun s => s.stream.name) parts.streams
  dataConnectors : runtime.dataConnectors.Coherent RuntimeDataConnectorConfig.id
    RuntimeDataConnectorConfig.name parts.dataConnectors
  endpoints : runtime.endpoints.Coherent RuntimeEndpointConfig.id RuntimeEndpointConfig.name
    parts.endpoints
  connected : ∀ id endpoint, runtime.endpoints.byId.lookup id = some endpoint →
    runtime.Connected endpoint
  links : ∀ ends link, runtime.links.lookup ends = some link ↔ link ∈ parts.links ∧ link.ends = ends
  /-- Configured pools are kept as they are. -/
  pools : ∀ pool ∈ parts.pools, runtime.poolsByName.lookup pool.name = some pool
  /-- Every pool that is named is present under its own name. -/
  named : ∀ semantics name, runtime.Names semantics → semantics.poolName = some name →
    ∃ pool, runtime.poolsByName.lookup name = some pool ∧ pool.name = name

/-- No id, name or link occurs twice, and every endpoint has a connector of its type. -/
structure WellFormed (parts : Parts) : Prop where
  serviceIds : (parts.services.map ServiceConfig.id).Nodup
  serviceNames : (parts.services.map ServiceConfig.name).Nodup
  streamIds : (parts.streams.map fun s => s.stream.id).Nodup
  streamNames : (parts.streams.map fun s => s.stream.name).Nodup
  poolNames : (parts.pools.map PoolConfig.name).Nodup
  dataConnectorIds : (parts.dataConnectors.map RuntimeDataConnectorConfig.id).Nodup
  dataConnectorNames : (parts.dataConnectors.map RuntimeDataConnectorConfig.name).Nodup
  endpointIds : (parts.endpoints.map RuntimeEndpointConfig.id).Nodup
  endpointNames : (parts.endpoints.map RuntimeEndpointConfig.name).Nodup
  links : (parts.links.map LinkConfig.ends).Nodup
  connected : ∀ endpoint ∈ parts.endpoints, ∃ connector ∈ parts.dataConnectors,
    connector.id = endpoint.dataConnectorId ∧ connector.connectorType = endpoint.connectorType

theorem Loaded.wellFormed (h : Loaded parts runtime) : WellFormed parts where
  serviceIds := h.services.byId.nodup
  serviceNames := h.services.byName.nodup
  streamIds := h.streams.byId.nodup
  streamNames := h.streams.byName.nodup
  poolNames := h.pools.nodup
  dataConnectorIds := h.dataConnectors.byId.nodup
  dataConnectorNames := h.dataConnectors.byName.nodup
  endpointIds := h.endpoints.byId.nodup
  endpointNames := h.endpoints.byName.nodup
  links := h.links.nodup
  connected := by
    intro endpoint he
    obtain ⟨connector, hc, htype⟩ := h.connected endpoint he
    obtain ⟨hmem, hid⟩ := (h.dataConnectors.byId.lookup _ _).1 hc
    exact ⟨connector, hmem, hid, htype⟩

theorem coherent_of_fromParts {debug : String → String} {orders : Orders}
    (h : fromParts debug orders parts = .ok runtime') : Coherent parts runtime' := by
  obtain ⟨runtime, hl, rfl⟩ := fromParts_eq_ok h
  have hown : ∀ n p, runtime.poolsByName.lookup n = some p → p.name = n :=
    fun n p hp => ((hl.pools.lookup n p).1 hp).2
  obtain ⟨hkeep, hnamed, hself⟩ := completePools (l := runtime.referencedPools orders) hown
  refine ⟨hl.services.coherent, hl.streams.coherent, hl.dataConnectors.coherent,
    hl.endpoints.coherent, ?_, hl.links.lookup, ?_, ?_⟩
  · intro id endpoint he
    exact hl.connected endpoint ((hl.endpoints.byId.lookup id endpoint).1 he).1
  · exact fun pool hp => hkeep _ _ ((hl.pools.lookup _ pool).2 ⟨hp, rfl⟩)
  · intro semantics name hnames hname
    have hmem : semantics ∈ runtime.referencedPools orders := by
      unfold RuntimeConfig.referencedPools
      rcases hnames with rfl | ⟨id, service, hs, rfl⟩ | ⟨ends, link, hs, rfl⟩
      · exact List.mem_cons_self
      · refine List.mem_cons_of_mem _ (List.mem_append_left _ (List.mem_map_of_mem ?_))
        exact mem_serviceList.2 ⟨id, hs⟩
      · refine List.mem_cons_of_mem _ (List.mem_append_right _ (List.mem_map_of_mem ?_))
        exact mem_linkList.2 ⟨ends, hs⟩
    obtain ⟨pool, hp⟩ := Finmap.mem_iff.1 (hnamed semantics hmem name hname)
    exact ⟨pool, hp, hself name pool hp⟩

/-! ## Every link finds its pool -/

/-- The pool that the semantics name is registered, as a pool of the right kind. -/
def RuntimeEnvironment.Registered (environment : RuntimeEnvironment) : CallSemantics → Prop
  | .taskPool name => name ∈ environment.taskPools
  | .priorityTaskPool name _ => name ∈ environment.priorityTaskPools
  | _ => True

/-- Pools are only ever added. -/
structure Grows (environment environment' : RuntimeEnvironment) : Prop where
  serviceId : environment'.serviceId = environment.serviceId
  runtimeConfig : environment'.runtimeConfig = environment.runtimeConfig
  taskPools : ∀ name ∈ environment.taskPools, name ∈ environment'.taskPools
  priorityTaskPools : ∀ name ∈ environment.priorityTaskPools, name ∈ environment'.priorityTaskPools

variable {metrics : PoolMetrics} {environment environment' : RuntimeEnvironment}

theorem Grows.refl (environment : RuntimeEnvironment) : Grows environment environment :=
  ⟨rfl, rfl, fun _ => id, fun _ => id⟩

theorem Grows.trans {environment'' : RuntimeEnvironment} (h : Grows environment environment')
    (h' : Grows environment' environment'') : Grows environment environment'' :=
  ⟨h'.serviceId.trans h.serviceId, h'.runtimeConfig.trans h.runtimeConfig,
    fun name hn => h'.taskPools name (h.taskPools name hn),
    fun name hn => h'.priorityTaskPools name (h.priorityTaskPools name hn)⟩

theorem Grows.registered {semantics : CallSemantics} (h : Grows environment environment')
    (hr : environment.Registered semantics) : environment'.Registered semantics := by
  cases semantics with
  | functionCall | parallelCall => exact trivial
  | taskPool name => exact h.taskPools name hr
  | priorityTaskPool name priority => exact h.priorityTaskPools name hr

theorem Grows.callSemantics (h : Grows environment environment') (fromId toId : ℤ) :
    environment'.callSemantics fromId toId = environment.callSemantics fromId toId := by
  simp only [RuntimeEnvironment.callSemantics, RuntimeEnvironment.serviceDefault, h.serviceId,
    h.runtimeConfig]

theorem registerTaskPool_grows (pool : TaskPool) :
    Grows environment (environment.registerTaskPool pool).2 :=
  ⟨rfl, rfl, fun _ hn => Finmap.mem_insert.2 (.inr hn), fun _ => id⟩

theorem registerPriorityTaskPool_grows (pool : PriorityTaskPool) :
    Grows environment (environment.registerPriorityTaskPool pool).2 :=
  ⟨rfl, rfl, fun _ => id, fun _ hn => Finmap.mem_insert.2 (.inr hn)⟩

theorem taskPool_eq_ok {name : String} {pool : TaskPool}
    (h : environment.taskPool name = .ok pool) : name ∈ environment.taskPools := by
  unfold RuntimeEnvironment.taskPool at h
  split at h
  · rename_i hl
    exact Finmap.mem_of_lookup_eq_some hl
  · cases h

theorem priorityTaskPool_eq_ok {name : String} {pool : PriorityTaskPool}
    (h : environment.priorityTaskPool name = .ok pool) : name ∈ environment.priorityTaskPools := by
  unfold RuntimeEnvironment.priorityTaskPool at h
  split at h
  · rename_i hl
    exact Finmap.mem_of_lookup_eq_some hl
  · cases h

/-- **One round** only adds pools, and unless it fails the pool is there. -/
theorem registerConfiguredPool_spec (metrics : PoolMetrics) (environment : RuntimeEnvironment)
    (semantics : CallSemantics) :
    Grows environment (registerConfiguredPool metrics environment semantics).2 ∧
    ((registerConfiguredPool metrics environment semantics).1 = .ok () →
      (registerConfiguredPool metrics environment semantics).2.Registered semantics) := by
  cases semantics with
  | functionCall | parallelCall => exact ⟨Grows.refl _, fun _ => trivial⟩
  | taskPool name =>
    simp only [registerConfiguredPool]
    cases hpool : environment.taskPool name with
    | ok pool => exact ⟨Grows.refl _, fun _ => taskPool_eq_ok hpool⟩
    | error _ =>
      cases newQueuedPool metrics environment name false with
      | ok => exact ⟨registerTaskPool_grows _, fun _ => Finmap.mem_insert.2 (.inl rfl)⟩
      | error error => exact ⟨Grows.refl _, nofun⟩
  | priorityTaskPool name priority =>
    simp only [registerConfiguredPool]
    cases hpool : environment.priorityTaskPool name with
    | ok pool => exact ⟨Grows.refl _, fun _ => priorityTaskPool_eq_ok hpool⟩
    | error _ =>
      cases newQueuedPool metrics environment name true with
      | ok => exact ⟨registerPriorityTaskPool_grows _, fun _ => Finmap.mem_insert.2 (.inl rfl)⟩
      | error error => exact ⟨Grows.refl _, nofun⟩

/-- **The whole loop** only adds pools, and unless it fails all pools are there. -/
theorem registerPools_spec (metrics : PoolMetrics) (environment : RuntimeEnvironment)
    (l : List CallSemantics) :
    Grows environment (registerPools metrics environment l).2 ∧
    ((registerPools metrics environment l).1 = .ok () →
      ∀ semantics ∈ l, (registerPools metrics environment l).2.Registered semantics) := by
  induction l generalizing environment with
  | nil => exact ⟨Grows.refl _, fun _ => nofun⟩
  | cons semantics rest ih =>
    obtain ⟨hgrows, hreg⟩ := registerConfiguredPool_spec metrics environment semantics
    unfold registerPools
    generalize registerConfiguredPool metrics environment semantics = round at hgrows hreg
    obtain ⟨result, next⟩ := round
    cases result with
    | error error => exact ⟨hgrows, nofun⟩
    | ok =>
      obtain ⟨hgrows', hall⟩ := ih next
      refine ⟨hgrows.trans hgrows', fun hok other hmem => ?_⟩
      rcases List.mem_cons.1 hmem with rfl | hmem
      · exact hgrows'.registered (hreg rfl)
      · exact hall hok other hmem

/-- Registering does not fail on configured pools, unless their metrics do. -/
theorem registerPools_ok {l : List CallSemantics} (hmetrics : ∀ priority name,
    metrics priority name = .ok ()) (hl : ∀ semantics ∈ l, ∀ name, semantics.poolName = some name →
      name ∈ environment.runtimeConfig.poolsByName) :
    (registerPools metrics environment l).1 = .ok () := by
  induction l generalizing environment with
  | nil => rfl
  | cons semantics rest ih =>
    have hround : (registerConfiguredPool metrics environment semantics).1 = .ok () := by
      have hname := hl semantics List.mem_cons_self
      cases semantics with
      | functionCall | parallelCall => rfl
      | taskPool name =>
        simp only [registerConfiguredPool]
        cases hpool : environment.taskPool name with
        | ok pool => rfl
        | error _ =>
          have hnew : name ∉ environment.taskPools := by
            intro hmem
            obtain ⟨pool, hp⟩ := Finmap.mem_iff.1 hmem
            simp [RuntimeEnvironment.taskPool, hp] at hpool
          rw [newQueuedPool, if_pos (hname name rfl), hmetrics]
          exact if_neg hnew
      | priorityTaskPool name priority =>
        simp only [registerConfiguredPool]
        cases hpool : environment.priorityTaskPool name with
        | ok pool => rfl
        | error _ =>
          have hnew : name ∉ environment.priorityTaskPools := by
            intro hmem
            obtain ⟨pool, hp⟩ := Finmap.mem_iff.1 hmem
            simp [RuntimeEnvironment.priorityTaskPool, hp] at hpool
          rw [newQueuedPool, if_pos (hname name rfl), hmetrics]
          exact if_neg hnew
    have hgrows := (registerConfiguredPool_spec metrics environment semantics).1
    unfold registerPools
    generalize registerConfiguredPool metrics environment semantics = round at hround hgrows
    obtain ⟨result, next⟩ := round
    cases hround
    refine ih fun other hmem name hn => ?_
    rw [hgrows.runtimeConfig]
    exact hl other (List.mem_cons_of_mem _ hmem) name hn

theorem linkCaller_ok {semantics : CallSemantics} {functionCallAsync : Bool}
    (h : environment.Registered semantics) :
    ∃ caller, linkCaller environment functionCallAsync semantics = .ok caller := by
  cases semantics with
  | functionCall | parallelCall => exact ⟨_, rfl⟩
  | taskPool name =>
    obtain ⟨pool, hp⟩ := Finmap.mem_iff.1 h
    refine ⟨.taskPool pool, ?_⟩
    simp only [linkCaller, RuntimeEnvironment.taskPool, hp]
    rfl
  | priorityTaskPool name priority =>
    obtain ⟨pool, hp⟩ := Finmap.mem_iff.1 h
    refine ⟨.priorityTaskPool pool priority, ?_⟩
    simp only [linkCaller, RuntimeEnvironment.priorityTaskPool, hp]
    rfl

/-- What a link selects is a link's own semantics, or the default of the service. -/
theorem callSemantics_mem (environment : RuntimeEnvironment) (orders : Orders) (fromId toId : ℤ) :
    environment.callSemantics fromId toId ∈
      (environment.runtimeConfig.linkList orders).map LinkConfig.callSemantics ++
        [environment.serviceDefault.getD environment.runtimeConfig.defaultCallSemantics] := by
  unfold RuntimeEnvironment.callSemantics
  split
  · rename_i link hl
    exact List.mem_append_left _ (List.mem_map_of_mem (mem_linkList.2 ⟨_, hl⟩))
  · exact List.mem_append_right _ (List.mem_singleton_self _)

/-! ## Main result -/

/-- A pool that somebody registers later. -/
inductive Registration
  | task (pool : TaskPool)
  | priority (pool : PriorityTaskPool)

def RuntimeEnvironment.register (environment : RuntimeEnvironment) :
    Registration → RuntimeEnvironment
  | .task pool => (environment.registerTaskPool pool).2
  | .priority pool => (environment.registerPriorityTaskPool pool).2

theorem register_grows (environment : RuntimeEnvironment) (later : List Registration) :
    Grows environment (later.foldl RuntimeEnvironment.register environment) := by
  induction later generalizing environment with
  | nil => exact Grows.refl _
  | cons registration later ih =>
    rw [List.foldl_cons]
    refine Grows.trans ?_ (ih _)
    cases registration with
    | task pool => exact registerTaskPool_grows pool
    | priority pool => exact registerPriorityTaskPool_grows pool

/-- In a new app every link finds its pool, also after others have registered theirs. -/
theorem linkCaller_newServiceApp {orders : Orders} {config : ServiceConfig}
    (h : (newServiceApp metrics orders environment config).1 = .ok ()) (later : List Registration)
    (fromId toId : ℤ) (functionCallAsync : Bool) :
    let environment' := later.foldl RuntimeEnvironment.register
      (newServiceApp metrics orders environment config).2
    ∃ caller, linkCaller environment' functionCallAsync (environment'.callSemantics fromId toId) =
      .ok caller := by
  obtain ⟨hgrows, hall⟩ := registerPools_spec metrics (environment.forService config.id)
    (((environment.forService config.id).runtimeConfig.linkList orders).map
      LinkConfig.callSemantics ++
      [(environment.forService config.id).serviceDefault.getD
        (environment.forService config.id).runtimeConfig.defaultCallSemantics])
  have hlater := register_grows (newServiceApp metrics orders environment config).2 later
  refine linkCaller_ok (hlater.registered ?_)
  rw [hlater.callSemantics]
  refine hall h _ ?_
  have hmem := callSemantics_mem (environment.forService config.id) orders fromId toId
  rwa [← hgrows.callSemantics] at hmem

/-- **The runtime configuration is coherent.** If `from_parts` accepts the parts of a
configuration, its indices hold exactly these parts and correspond to each other one to one, every
endpoint has a connector of its type, and every pool that is named is present, configured pools
unchanged; parts that are not well formed are refused. And for every service, if `ServiceApp::new`
succeeds (which only the metrics of a pool can prevent), every link between any two streams finds
its pool. -/
theorem runtime_config_coherent (debug : String → String) (orders : Orders) (parts : Parts) :
    (¬ WellFormed parts → ∃ error, fromParts debug orders parts = .error error) ∧
    ∀ runtime, fromParts debug orders parts = .ok runtime →
      Coherent parts runtime ∧
      ∀ (metrics : PoolMetrics) (orders : Orders) (environment : RuntimeEnvironment)
        (config : ServiceConfig), environment.runtimeConfig = runtime →
        ((newServiceApp metrics orders environment config).1 = .ok () →
          ∀ (later : List Registration) (fromId toId : ℤ) (functionCallAsync : Bool),
            let environment' := later.foldl RuntimeEnvironment.register
              (newServiceApp metrics orders environment config).2
            ∃ caller, linkCaller environment' functionCallAsync
              (environment'.callSemantics fromId toId) = .ok caller) ∧
        ((∀ priority name, metrics priority name = .ok ()) →
          (newServiceApp metrics orders environment config).1 = .ok ()) := by
  constructor
  · intro hnot
    cases h : fromParts debug orders parts with
    | error error => exact ⟨error, rfl⟩
    | ok runtime =>
      obtain ⟨loaded, hl, -⟩ := fromParts_eq_ok h
      exact absurd hl.wellFormed hnot
  · intro runtime h
    have hcoherent := coherent_of_fromParts h
    refine ⟨hcoherent, fun metrics orders environment config hconfig => ⟨fun hok => ?_, ?_⟩⟩
    · exact linkCaller_newServiceApp hok
    · intro hmetrics
      refine registerPools_ok hmetrics fun semantics hmem name hname => ?_
      have hruntime : (environment.forService config.id).runtimeConfig = runtime := hconfig
      rw [hruntime] at hmem ⊢
      have hnames : runtime.Names semantics := by
        rcases List.mem_append.1 hmem with hmem | hmem
        · obtain ⟨link, hlink, rfl⟩ := List.mem_map.1 hmem
          obtain ⟨ends, hends⟩ := mem_linkList.1 hlink
          exact .inr (.inr ⟨ends, link, hends, rfl⟩)
        · rw [List.mem_singleton] at hmem
          cases hs : (environment.forService config.id).serviceDefault with
          | none =>
            rw [hs] at hmem
            exact .inl hmem
          | some default =>
            rw [hs] at hmem
            simp only [RuntimeEnvironment.serviceDefault, hruntime, Option.map_eq_some_iff,
              Option.bind_eq_some_iff] at hs
            obtain ⟨service, ⟨id, -, hservice⟩, rfl⟩ := hs
            exact .inr (.inl ⟨id, service, hservice, hmem⟩)
      obtain ⟨pool, hp, -⟩ := hcoherent.named semantics name hnames hname
      exact Finmap.mem_of_lookup_eq_some hp

/-- One service whose default is a pool, with a link that goes through a priority pool. -/
def sampleParts : Parts where
  defaultCallSemantics := .functionCall
  services := [⟨1, "orders", .taskPool "workers"⟩]
  streams := [⟨⟨10, "input"⟩⟩, ⟨⟨11, "output"⟩⟩]
  pools := [⟨"workers", 4, 100⟩]
  dataConnectors := [.kafka ⟨20, "broker"⟩]
  endpoints := [.kafka ⟨30, "topic", 20⟩]
  links := [⟨10, 11, .priorityTaskPool "urgent" 5, false⟩]

/-- The sample is accepted. In an app for its service the link finds the priority pool, and other
links the pool of the service. -/
theorem runtime_config_coherent_sampleParts :
    ∃ runtime, fromParts id ⟨default, default⟩ sampleParts = .ok runtime ∧
      runtime.poolsByName.lookup "workers" = some ⟨"workers", 4, 100⟩ ∧
      ∀ fromId toId, ∃ caller,
        linkCaller (newServiceApp (fun _ _ => .ok ()) ⟨default, default⟩
            ⟨none, runtime, ∅, ∅⟩ ⟨1, "orders", .taskPool "workers"⟩).2 false
          ((newServiceApp (fun _ _ => .ok ()) ⟨default, default⟩
            ⟨none, runtime, ∅, ∅⟩ ⟨1, "orders", .taskPool "workers"⟩).2.callSemantics fromId toId) =
          .ok caller := by
  obtain ⟨runtime, h⟩ : ∃ runtime, fromParts id ⟨default, default⟩ sampleParts = .ok runtime :=
    ⟨_, rfl⟩
  obtain ⟨hcoherent, happ⟩ := (runtime_config_coherent id ⟨default, default⟩ sampleParts).2 runtime h
  refine ⟨runtime, h, hcoherent.pools _ List.mem_cons_self, fun fromId toId => ?_⟩
  obtain ⟨hfind, hnew⟩ := happ (fun _ _ => .ok ()) ⟨default, default⟩ ⟨none, runtime, ∅, ∅⟩
    ⟨1, "orders", .taskPool "workers"⟩ rfl
  exact hfind (hnew fun _ _ => rfl) [] fromId toId false

end Configuration

end ServiceLib
