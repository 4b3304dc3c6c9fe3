import ServiceLib.Runtime.Error
import ServiceLib.Transition

/-!
# The Kafka data sink

Follows `RdkafkaKafkaDataSink` in `src/datasink/kafka/rdkafka.rs`: its lifecycle is an atomic `state`
that is 0 before `start`, 1 while `start` runs, 2 when the sink is running and 3 after `stop`. Send
tasks are spawned on a tracker, which `stop` closes and waits for before it flushes the producer.

* `stop_drains` — a `stop` that does not find the state at 3 returns `Ok` only after the tasks
  spawned before it have completed and the producer is flushed. A `stop` that does find it there
  returns at once, also when the earlier one was cancelled (`repeated_stop_skips_drain`).
* `stopped_absorbing` — the state stays at 3 as long as no `start` publishes its outcome after a
  `stop`. The stores of `start` are unconditional, so one that does undoes the `stop`
  (`start_overwrites_stop`).

Every access to `state`, the producer or the tracker is one action. Answers of the brokers, the
configuration that `start` reads and the moments at which futures are dropped are arbitrary.
-/

namespace ServiceLib

namespace KafkaSink

/-! ## Data -/

/-- The part of `KafkaEndpointConfig` that `start` reads. -/
structure EndpointConfig where
  enabled : Bool
  topic : String
  partitions : ℤ

inductive RuntimeEndpointConfig
  | kafka (config : EndpointConfig)
  | other

inductive SecurityProtocol
  | plaintext
  | saslPlaintext
  | saslSsl
  deriving DecidableEq

/-- The part of `KafkaDataConnectorConfig` that decides how `start` ends. -/
structure ConnectorConfig where
  brokers : String
  securityProtocol : SecurityProtocol
  username : String
  password : String

inductive RuntimeDataConnectorConfig
  | kafka (config : ConnectorConfig)
  | other

/-- The runtime configuration at one moment. -/
structure RuntimeConfig where
  endpointById : ℤ → Option RuntimeEndpointConfig
  dataConnectorById : ℤ → Option RuntimeDataConnectorConfig

/-- `KafkaEndpointRuntimeState`. -/
structure EndpointState where
  enabled : Bool
  partitions : ℤ

/-- What creating the statistics context and the native clients gives. -/
inductive Native
  | statisticsFailed (error : String)
  | adminFailed (error : String)
  | producerFailed (error : String)
  | created

/-- Where a `start` call stands. -/
inductive StartPc
  /-- The state has been taken from 0 to 1. -/
  | configuring
  | creatingTopics (enabledTopics : List ℤ)
  | fetchingMetadata (enabledTopics : List ℤ)
  /-- About to store the producer. -/
  | publishing
  /-- About to store the outcome into `state`, and to return. -/
  | storing (state : ℕ) (result : RuntimeResult Unit)
  | returned (result : RuntimeResult Unit)
  | dropped

inductive SendPc
  | checking
  | locating
  /-- `producer.send` runs. -/
  | delivering (producer : ℕ)
  /-- The result is known; a send task passes it on. -/
  | replied (result : Except String (ℤ × ℤ))
  | done

/-- A send: a task of the tracker, or a `send_sync` call. -/
structure Send where
  pc : SendPc
  task : Bool

inductive StopPc
  /-- About to close the tracker. -/
  | closing
  /-- In `select!`; the tracker has been closed and empty since. -/
  | waiting (ready : Bool)
  | flushing
  | returned (result : RuntimeResult Unit)
  | dropped

/-- What a `stop` call has made sure of: that there is no producer, or that it is flushed. -/
inductive Drain
  | pending
  | noProducer
  | flushed
  deriving DecidableEq

/-- A `stop` call. The sends below `spawned` were started before the call. -/
structure Stop where
  pc : StopPc
  context : ℕ
  spawned : ℕ
  drain : Drain

/-- The sink, its callers, and the contexts that are cancelled. -/
structure State where
  state : ℕ
  producer : Option ℕ
  endpoints : List (ℤ × EndpointState)
  /-- The tracker: is it closed, and which tasks run? -/
  closed : Bool
  running : List ℕ
  nextSend : ℕ
  sends : ℕ → Option Send
  starts : ℕ → Option StartPc
  stops : ℕ → Option Stop
  cancelled : ℕ → Bool
  /-- Has `stop` been called? -/
  stopCalled : Bool

/-- The sink when its endpoints have been registered. -/
def State.init (endpoints : List ℤ) : State where
  state := 0
  producer := none
  endpoints := endpoints.map fun id => (id, ⟨false, 1⟩)
  closed := false
  running := []
  nextSend := 0
  sends := fun _ => none
  starts := fun _ => none
  stops := fun _ => none
  cancelled := fun _ => false
  stopCalled := false

namespace State

def setStart (s : State) (i : ℕ) (pc : StartPc) : State :=
  { s with starts := Function.update s.starts i (some pc) }

def setSend (s : State) (i : ℕ) (x : Send) : State :=
  { s with sends := Function.update s.sends i (some x) }

def setStop (s : State) (j : ℕ) (x : Stop) : State :=
  { s with stops := Function.update s.stops j (some x) }

end State

/-! ## `start` -/

/-- The loop over the registered endpoints: their states, and the enabled ones. What was stored
before an error stays. -/
def configureEndpoints (runtime : RuntimeConfig) :
    List (ℤ × EndpointState) → List (ℤ × EndpointState) × RuntimeResult (List ℤ)
  | [] => ([], .ok [])
  | (id, x) :: rest =>
    match runtime.endpointById id with
    | none =>
      ((id, x) :: rest, .error (.invalidConfiguration s!"Kafka endpoint {id} is not configured"))
    | some .other =>
      ((id, x) :: rest, .error (.invalidConfiguration s!"endpoint {id} is not Kafka"))
    | some (.kafka endpoint) =>
      let (states, enabled) := configureEndpoints runtime rest
      ((id, ⟨endpoint.enabled, max endpoint.partitions 1⟩) :: states,
        enabled.map fun ids => if endpoint.enabled then id :: ids else ids)

/-- Unicode `White_Space`, which `trim` removes. -/
def isWhitespace (c : Char) : Bool :=
  let n := c.toNat
  (9 ≤ n && n ≤ 13) || n = 0x20 || n = 0x85 || n = 0xA0 || n = 0x1680 ||
    (0x2000 ≤ n && n ≤ 0x200A) || n = 0x2028 || n = 0x2029 || n = 0x202F || n = 0x205F ||
    n = 0x3000

/-- `apply_security`: what may go wrong in it. -/
def applySecurity (connector : ConnectorConfig) : RuntimeResult Unit :=
  if connector.securityProtocol = .plaintext then .ok ()
  else if connector.username.isEmpty || connector.password.isEmpty then
    .error (.invalidConfiguration "Kafka SASL username and password must both be configured")
  else .ok ()

/-- The connector of the sink, checked. -/
def connectorOf (id : ℤ) (name : String) (runtime : RuntimeConfig) :
    RuntimeResult ConnectorConfig :=
  match runtime.dataConnectorById id with
  | none => .error (.invalidConfiguration s!"Kafka data connector {id} is not configured")
  | some .other =>
    .error (.invalidConfiguration ("data connector " ++ name.quote ++ " is not Kafka"))
  | some (.kafka connector) =>
    if connector.brokers.toList.all isWhitespace then
      .error (.invalidConfiguration
        ("no brokers specified for Kafka data connector " ++ name.quote))
    else .ok connector

/-- From the loop over the endpoints to the first `await`. An error that is passed on by `?` leaves
the state at 1. -/
def configure (id : ℤ) (name : String) (s : State) (i : ℕ) (runtime : RuntimeConfig)
    (native : Native) : State :=
  let (endpoints, result) := configureEndpoints runtime s.endpoints
  let s := { s with endpoints := endpoints }
  match result with
  | .error error => s.setStart i (.storing 0 (.error error))
  | .ok enabled =>
    if enabled.isEmpty then s.setStart i (.storing 2 (.ok ()))
    else
      match connectorOf id name runtime with
      | .error error => s.setStart i (.storing 0 (.error error))
      | .ok connector =>
        match applySecurity connector with
        | .error error => s.setStart i (.returned (.error error))
        | .ok () =>
          match native with
          | .statisticsFailed error => s.setStart i (.returned (.error (.metrics error)))
          | .adminFailed error | .producerFailed error =>
            s.setStart i (.storing 0 (.error (.transport error)))
          | .created => s.setStart i (.creatingTopics enabled)

/-- The partition counts that the metadata gives are stored. -/
def storePartitions (endpoints : List (ℤ × EndpointState)) (discovered : List (ℤ × ℤ)) :
    List (ℤ × EndpointState) :=
  endpoints.map fun (id, x) =>
    match discovered.lookup id with
    | some partitions => (id, { x with partitions := partitions })
    | none => (id, x)

/-! ## The tracker -/

/-- The waiters of a tracker that is closed and empty are woken. -/
def notify (s : State) : State :=
  if s.closed && s.running.isEmpty then
    { s with stops := fun j => (s.stops j).map fun x =>
        match x.pc with
        | .waiting _ => { x with pc := .waiting true }
        | _ => x }
  else s

/-- A send is over; a task leaves the tracker. -/
def finish (s : State) (i : ℕ) (x : Send) : State :=
  let s := s.setSend i { x with pc := .done }
  if x.task then notify { s with running := s.running.erase i } else s

/-! ## The system -/

inductive Action
  | start (i : ℕ)
  | configure (i : ℕ) (runtime : RuntimeConfig) (native : Native)
  /-- The answer to `create_topics`. -/
  | topics (i : ℕ) (result : Except String Unit)
  /-- The answer to `fetch_metadata`: the partition counts of the enabled endpoints. -/
  | metadata (i : ℕ) (result : Except String (List (ℤ × ℤ)))
  | publish (i : ℕ)
  | store (i : ℕ)
  | dropStart (i : ℕ)
  /-- `SinkMessage::send`; the partitioner may fail. -/
  | spawn (partition : Except String Unit)
  | sendSync
  | check (i : ℕ)
  | locate (i : ℕ)
  | delivered (i : ℕ) (result : Except String (ℤ × ℤ))
  | finish (i : ℕ)
  /-- A send is dropped, or panics. -/
  | dropSend (i : ℕ)
  | stop (j context : ℕ)
  | close (j : ℕ)
  | waited (j : ℕ)
  | stopCancelled (j : ℕ)
  | flush (j : ℕ) (success : Bool)
  | dropStop (j : ℕ)
  | cancel (context : ℕ)

/-- `id` and `name` are those of the sink. -/
def step (id : ℤ) (name : String) (s : State) : Action → Option State
  | .start i =>
    match s.starts i with
    | some _ => none
    | none =>
      if s.state = 0 then some (State.setStart { s with state := 1 } i .configuring)
      else if s.state = 3 then some (s.setStart i (.returned (.error (.resourceStopped name))))
      else some (s.setStart i (.returned (.error (.resourceAlreadyStarted name))))
  | .configure i runtime native =>
    match s.starts i with
    | some .configuring => some (configure id name s i runtime native)
    | _ => none
  | .topics i result =>
    match s.starts i with
    | some (.creatingTopics enabled) =>
      match result with
      | .ok () => some (s.setStart i (.fetchingMetadata enabled))
      | .error error => some (s.setStart i (.storing 0 (.error (.transport error))))
    | _ => none
  | .metadata i result =>
    match s.starts i with
    | some (.fetchingMetadata enabled) =>
      match result with
      | .ok discovered =>
        let discovered := discovered.filter fun p => p.1 ∈ enabled
        some (State.setStart { s with endpoints := storePartitions s.endpoints discovered } i
          .publishing)
      | .error error => some (s.setStart i (.returned (.error (.transport error))))
    | _ => none
  | .publish i =>
    match s.starts i with
    | some .publishing =>
      some (State.setStart { s with producer := some i } i (.storing 2 (.ok ())))
    | _ => none
  | .store i =>
    match s.starts i with
    | some (.storing state result) =>
      some (State.setStart { s with state := state } i (.returned result))
    | _ => none
  | .dropStart i =>
    match s.starts i with
    | some (.creatingTopics _) | some (.fetchingMetadata _) => some (s.setStart i .dropped)
    | _ => none
  | .spawn partition =>
    let pc := match partition with
      | .ok () => SendPc.checking
      | .error error => SendPc.replied (.error error)
    let i := s.nextSend
    some (State.setSend { s with nextSend := i + 1, running := s.running ++ [i] } i ⟨pc, true⟩)
  | .sendSync =>
    let i := s.nextSend
    some (State.setSend { s with nextSend := i + 1 } i ⟨.checking, false⟩)
  | .check i => do
    let x ← s.sends i
    match x.pc with
    | .checking =>
      if s.state ≠ 2 then
        some (s.setSend i { x with pc := .replied (.error "Kafka producer is not running") })
      else some (s.setSend i { x with pc := .locating })
    | _ => none
  | .locate i => do
    let x ← s.sends i
    match x.pc with
    | .locating =>
      match s.producer with
      | none =>
        some (s.setSend i { x with pc := .replied (.error "Kafka producer is not running") })
      | some producer => some (s.setSend i { x with pc := .delivering producer })
    | _ => none
  | .delivered i result => do
    let x ← s.sends i
    match x.pc with
    | .delivering _ => some (s.setSend i { x with pc := .replied result })
    | _ => none
  | .finish i => do
    let x ← s.sends i
    match x.pc with
    | .replied _ => some (KafkaSink.finish s i x)
    | _ => none
  | .dropSend i => do
    let x ← s.sends i
    match x.pc with
    | .done => none
    | _ => some (KafkaSink.finish s i x)
  | .stop j context =>
    match s.stops j with
    | some _ => none
    | none =>
      let pc := if s.state = 3 then StopPc.returned (.ok ()) else StopPc.closing
      some (State.setStop { s with state := 3, stopCalled := true } j
        ⟨pc, context, s.nextSend, .pending⟩)
  | .close j => do
    let x ← s.stops j
    match x.pc with
    | .closing =>
      some (State.setStop { s with closed := true } j
        { x with pc := .waiting s.running.isEmpty })
    | _ => none
  | .waited j => do
    let x ← s.stops j
    match x.pc with
    | .waiting true => some (s.setStop j { x with pc := .flushing })
    | _ => none
  | .stopCancelled j => do
    let x ← s.stops j
    match x.pc with
    | .waiting _ =>
      if s.cancelled x.context then
        some (s.setStop j { x with pc := .returned (.error .contextCancelled) })
      else none
    | _ => none
  | .flush j success => do
    let x ← s.stops j
    match x.pc with
    | .flushing =>
      match s.producer with
      | none => some (s.setStop j { x with pc := .returned (.ok ()), drain := .noProducer })
      | some _ =>
        if success then
          some (s.setStop j { x with pc := .returned (.ok ()), drain := .flushed })
        else if s.cancelled x.context then
          some (s.setStop j { x with pc := .returned (.error .contextCancelled) })
        else some s
    | _ => none
  | .dropStop j => do
    let x ← s.stops j
    match x.pc with
    | .waiting _ => some (s.setStop j { x with pc := .dropped })
    | _ => none
  | .cancel context => some { s with cancelled := Function.update s.cancelled context true }

def system (id : ℤ) (name : String) (endpoints : List ℤ) : System State Action where
  init := .init endpoints
  step := step id name

/-! ## What a step can do -/

/-- Nothing has happened but to `start`, its results, and contexts. -/
structure Quiet (s t : State) : Prop where
  closed : t.closed = s.closed
  running : t.running = s.running
  nextSend : t.nextSend = s.nextSend
  sends : t.sends = s.sends
  stops : t.stops = s.stops
  stopCalled : t.stopCalled = s.stopCalled

/-- A `stop` call that has seen the tracker closed and empty. -/
def StopPc.Past : StopPc → Prop
  | .waiting true | .flushing | .returned (.ok ()) => True
  | _ => False

/-- What a step does. -/
inductive Effect (s : State) : Action → State → Prop
  | quiet {a : Action} {t : State} : Quiet s t →
      (t.state = s.state ∨ s.state = 0 ∨ ∃ i, a = .store i) → Effect s a t
  | spawned {a : Action} (pc : SendPc) : Effect s a
      (State.setSend { s with nextSend := s.nextSend + 1, running := s.running ++ [s.nextSend] }
        s.nextSend ⟨pc, true⟩)
  | called {a : Action} : Effect s a
      (State.setSend { s with nextSend := s.nextSend + 1 } s.nextSend ⟨.checking, false⟩)
  | sent {a : Action} {i : ℕ} {x : Send} (pc : SendPc) : s.sends i = some x → x.pc ≠ .done →
      Effect s a (s.setSend i { x with pc := pc })
  | finished {a : Action} {i : ℕ} {x : Send} : s.sends i = some x → Effect s a (finish s i x)
  | stop (j context : ℕ) : s.stops j = none → Effect s (.stop j context)
      (State.setStop { s with state := 3, stopCalled := true } j
        ⟨if s.state = 3 then .returned (.ok ()) else .closing, context, s.nextSend, .pending⟩)
  /-- A `stop` call moves on. It passes the tracker when that is empty, and returns `Ok` when it has
  passed it and the producer is flushed. -/
  | stopping {a : Action} {j : ℕ} {x : Stop} (closed : Bool) (pc : StopPc) (drain : Drain) :
      s.stops j = some x → (pc.Past → x.pc.Past ∨ s.running = []) →
      (pc = .returned (.ok ()) → drain ≠ .pending) →
      Effect s a (State.setStop { s with closed := closed } j { x with pc := pc, drain := drain })

theorem configure_quiet (id : ℤ) (name : String) (s : State) (i : ℕ) (runtime : RuntimeConfig)
    (native : Native) :
    Quiet s (configure id name s i runtime native) ∧
      (configure id name s i runtime native).state = s.state := by
  unfold configure
  split
  dsimp only
  split
  · exact ⟨⟨rfl, rfl, rfl, rfl, rfl, rfl⟩, rfl⟩
  · split_ifs
    · exact ⟨⟨rfl, rfl, rfl, rfl, rfl, rfl⟩, rfl⟩
    · split
      · exact ⟨⟨rfl, rfl, rfl, rfl, rfl, rfl⟩, rfl⟩
      · split
        · exact ⟨⟨rfl, rfl, rfl, rfl, rfl, rfl⟩, rfl⟩
        · split <;> exact ⟨⟨rfl, rfl, rfl, rfl, rfl, rfl⟩, rfl⟩

variable {id : ℤ} {name : String} {s t : State} {a : Action}

theorem step_effect (hs : step id name s a = some t) : Effect s a t := by
  cases a with
  | start i =>
    simp only [step] at hs
    cases hi : s.starts i <;> simp only [hi, reduceCtorEq] at hs
    by_cases h0 : s.state = 0
    · rw [if_pos h0, Option.some.injEq] at hs
      exact hs ▸ .quiet ⟨rfl, rfl, rfl, rfl, rfl, rfl⟩ (.inr (.inl h0))
    · rw [if_neg h0] at hs
      split_ifs at hs <;> rw [Option.some.injEq] at hs <;>
        exact hs ▸ .quiet ⟨rfl, rfl, rfl, rfl, rfl, rfl⟩ (.inl rfl)
  | configure i runtime native =>
    simp only [step] at hs
    split at hs
    · obtain ⟨hq, hstate⟩ := configure_quiet id name s i runtime native
      rw [Option.some.injEq] at hs
      exact hs ▸ .quiet hq (.inl hstate)
    · cases hs
  | topics i result =>
    simp only [step] at hs
    split at hs
    · cases result <;> simp only [Option.some.injEq] at hs <;>
        exact hs ▸ .quiet ⟨rfl, rfl, rfl, rfl, rfl, rfl⟩ (.inl rfl)
    · cases hs
  | metadata i result =>
    simp only [step] at hs
    split at hs
    · cases result <;> simp only [Option.some.injEq] at hs <;>
        exact hs ▸ .quiet ⟨rfl, rfl, rfl, rfl, rfl, rfl⟩ (.inl rfl)
    · cases hs
  | publish i =>
    simp only [step] at hs
    split at hs
    · rw [Option.some.injEq] at hs
      exact hs ▸ .quiet ⟨rfl, rfl, rfl, rfl, rfl, rfl⟩ (.inl rfl)
    · cases hs
  | store i =>
    simp only [step] at hs
    split at hs
    · rw [Option.some.injEq] at hs
      exact hs ▸ .quiet ⟨rfl, rfl, rfl, rfl, rfl, rfl⟩ (.inr (.inr ⟨i, rfl⟩))
    · cases hs
  | dropStart i =>
    simp only [step] at hs
    split at hs
    · rw [Option.some.injEq] at hs
      exact hs ▸ .quiet ⟨rfl, rfl, rfl, rfl, rfl, rfl⟩ (.inl rfl)
    · rw [Option.some.injEq] at hs
      exact hs ▸ .quiet ⟨rfl, rfl, rfl, rfl, rfl, rfl⟩ (.inl rfl)
    · cases hs
  | spawn partition =>
    simp only [step, Option.some.injEq] at hs
    exact hs ▸ .spawned _
  | sendSync =>
    simp only [step, Option.some.injEq] at hs
    exact hs ▸ .called
  | check i =>
    simp only [step, Option.bind_eq_bind, Option.bind_eq_some_iff] at hs
    obtain ⟨x, hx, hs⟩ := hs
    cases hpc : x.pc <;> simp only [hpc, reduceCtorEq] at hs
    split_ifs at hs <;> rw [Option.some.injEq] at hs <;>
      exact hs ▸ .sent _ hx (by rw [hpc]; exact nofun)
  | locate i =>
    simp only [step, Option.bind_eq_bind, Option.bind_eq_some_iff] at hs
    obtain ⟨x, hx, hs⟩ := hs
    cases hpc : x.pc <;> simp only [hpc, reduceCtorEq] at hs
    cases hp : s.producer <;> simp only [hp, Option.some.injEq] at hs <;>
      exact hs ▸ .sent _ hx (by rw [hpc]; exact nofun)
  | delivered i result =>
    simp only [step, Option.bind_eq_bind, Option.bind_eq_some_iff] at hs
    obtain ⟨x, hx, hs⟩ := hs
    cases hpc : x.pc <;> simp only [hpc, reduceCtorEq, Option.some.injEq] at hs
    exact hs ▸ .sent _ hx (by rw [hpc]; exact nofun)
  | finish i | dropSend i =>
    simp only [step, Option.bind_eq_bind, Option.bind_eq_some_iff] at hs
    obtain ⟨x, hx, hs⟩ := hs
    cases hpc : x.pc <;> simp only [hpc, reduceCtorEq, Option.some.injEq] at hs
    all_goals exact hs ▸ .finished hx
  | stop j context =>
    simp only [step] at hs
    cases hj : s.stops j <;> simp only [hj, reduceCtorEq, Option.some.injEq] at hs
    exact hs ▸ .stop j context hj
  | close j =>
    simp only [step, Option.bind_eq_bind, Option.bind_eq_some_iff] at hs
    obtain ⟨x, hx, hs⟩ := hs
    cases hpc : x.pc <;> simp only [hpc, reduceCtorEq, Option.some.injEq] at hs
    refine hs ▸ .stopping true _ x.drain hx (fun hp => .inr ?_) nofun
    cases hr : s.running with
    | nil => rfl
    | cons i rest => rw [hr] at hp; exact hp.elim
  | waited j =>
    simp only [step, Option.bind_eq_bind, Option.bind_eq_some_iff] at hs
    obtain ⟨x, hx, hs⟩ := hs
    split at hs
    · rename_i hpc
      rw [Option.some.injEq] at hs
      exact hs ▸ .stopping s.closed _ x.drain hx (fun _ => .inl (by rw [hpc]; exact trivial)) nofun
    · cases hs
  | stopCancelled j =>
    simp only [step, Option.bind_eq_bind, Option.bind_eq_some_iff] at hs
    obtain ⟨x, hx, hs⟩ := hs
    cases hpc : x.pc <;> simp only [hpc, reduceCtorEq] at hs
    split_ifs at hs
    rw [Option.some.injEq] at hs
    exact hs ▸ .stopping s.closed _ x.drain hx nofun nofun
  | flush j success =>
    simp only [step, Option.bind_eq_bind, Option.bind_eq_some_iff] at hs
    obtain ⟨x, hx, hs⟩ := hs
    cases hpc : x.pc <;> simp only [hpc, reduceCtorEq] at hs
    have hpast : x.pc.Past := by rw [hpc]; exact trivial
    cases hp : s.producer <;> simp only [hp, Option.some.injEq] at hs
    · exact hs ▸ .stopping s.closed _ .noProducer hx (fun _ => .inl hpast) nofun
    · split_ifs at hs <;> rw [Option.some.injEq] at hs
      · exact hs ▸ .stopping s.closed _ .flushed hx (fun _ => .inl hpast) nofun
      · exact hs ▸ .stopping s.closed _ x.drain hx nofun nofun
      · exact hs ▸ .quiet ⟨rfl, rfl, rfl, rfl, rfl, rfl⟩ (.inl rfl)
  | dropStop j =>
    simp only [step, Option.bind_eq_bind, Option.bind_eq_some_iff] at hs
    obtain ⟨x, hx, hs⟩ := hs
    cases hpc : x.pc <;> simp only [hpc, reduceCtorEq, Option.some.injEq] at hs
    exact hs ▸ .stopping s.closed _ x.drain hx nofun nofun
  | cancel context =>
    simp only [step, Option.some.injEq] at hs
    exact hs ▸ .quiet ⟨rfl, rfl, rfl, rfl, rfl, rfl⟩ (.inl rfl)

/-! ## `stop` drains the sink -/

/-- The tasks started before a `stop` call that has passed the tracker are not in it, and the call
returns `Ok` with the producer flushed. -/
structure StopOk (running : List ℕ) (nextSend : ℕ) (x : Stop) : Prop where
  spawned : x.spawned ≤ nextSend
  past : x.pc.Past → ∀ i ∈ running, x.spawned ≤ i
  drained : x.pc = .returned (.ok ()) → x.drain ≠ .pending

structure DrainOk (s : State) : Prop where
  sends : ∀ i x, s.sends i = some x → i < s.nextSend ∧
    (x.task = true → i ∈ s.running ∨ x.pc = .done)
  stops : ∀ j x, s.stops j = some x → StopOk s.running s.nextSend x

/-- A step that does not call `stop` when the state is 3. -/
def Unstopped (s : State) : Action → Prop
  | .stop _ _ => s.state ≠ 3
  | _ => True

theorem drainOk_init (endpoints : List ℤ) : DrainOk (.init endpoints) := ⟨nofun, nofun⟩

theorem DrainOk.setStop (h : DrainOk s) (j : ℕ) {x : Stop} (hx : StopOk s.running s.nextSend x)
    (state : ℕ) (closed stopCalled : Bool) :
    DrainOk (State.setStop { s with state := state, closed := closed, stopCalled := stopCalled }
      j x) := by
  refine ⟨h.sends, fun j' x' hx' => ?_⟩
  change Function.update s.stops j (some x) j' = some x' at hx'
  by_cases hj : j' = j
  · subst hj
    rw [Function.update_self, Option.some.injEq] at hx'
    exact hx' ▸ hx
  · rw [Function.update_of_ne hj] at hx'
    exact h.stops j' x' hx'

/-- Sends come and go without breaking the invariant as long as no task is forgotten. -/
theorem DrainOk.setSend (h : DrainOk s) {i n : ℕ} {running : List ℕ} {x : Send} (hn : s.nextSend ≤ n)
    (hi : i < n) (hx : x.task = true → i ∈ running ∨ x.pc = .done)
    (hold : ∀ k ∈ running, k ∈ s.running ∨ s.nextSend ≤ k)
    (hkeep : ∀ k ∈ s.running, k ≠ i → k ∈ running) :
    DrainOk (State.setSend { s with nextSend := n, running := running } i x) := by
  refine ⟨fun k y hy => ?_, fun j y hy => ?_⟩
  · change Function.update s.sends i (some x) k = some y at hy
    by_cases hk : k = i
    · subst hk
      rw [Function.update_self, Option.some.injEq] at hy
      subst hy
      exact ⟨hi, hx⟩
    · rw [Function.update_of_ne hk] at hy
      obtain ⟨hlt, htask⟩ := h.sends k y hy
      exact ⟨hlt.trans_le hn, fun ht => (htask ht).imp_left fun hm => hkeep k hm hk⟩
  · obtain ⟨hsp, hpast, hdr⟩ := h.stops j y hy
    refine ⟨hsp.trans hn, fun hp k hk => ?_, hdr⟩
    rcases hold k hk with hk | hk
    · exact hpast hp k hk
    · exact hsp.trans hk

/-- A tracker that is closed and empty lets its waiters pass. -/
theorem DrainOk.notify (h : DrainOk s) : DrainOk (notify s) := by
  unfold KafkaSink.notify
  split_ifs with hempty
  · have hrun : s.running = [] := by
      rw [Bool.and_eq_true] at hempty
      exact List.isEmpty_iff.1 hempty.2
    refine ⟨h.sends, fun j y hy => ?_⟩
    obtain ⟨x, hx, rfl⟩ := Option.map_eq_some_iff.1 hy
    obtain ⟨hsp, hpast, hdr⟩ := h.stops j x hx
    have hnone : ∀ i ∈ s.running, x.spawned ≤ i := by rw [hrun]; exact nofun
    split
    · exact ⟨hsp, fun _ => hnone, nofun⟩
    · exact ⟨hsp, hpast, hdr⟩
  · exact h

theorem DrainOk.finish (h : DrainOk s) {i : ℕ} {x : Send} (hx : s.sends i = some x) :
    DrainOk (finish s i x) := by
  have hi := (h.sends i x hx).1
  unfold KafkaSink.finish
  dsimp only
  split_ifs
  · refine DrainOk.notify ?_
    have hold : ∀ k ∈ s.running.erase i, k ∈ s.running ∨ s.nextSend ≤ k :=
      fun k hk => .inl (List.mem_of_mem_erase hk)
    exact h.setSend le_rfl hi (fun _ => .inr rfl) hold fun k hk hki => (List.mem_erase_of_ne hki).2 hk
  · exact h.setSend le_rfl hi (fun _ => .inr rfl) (fun k hk => .inl hk) (fun k hk _ => hk)

theorem DrainOk.step (h : DrainOk s) (hok : Unstopped s a) (hs : step id name s a = some t) :
    DrainOk t := by
  cases step_effect hs with
  | quiet hq =>
    refine ⟨fun i x hx => ?_, fun j x hx => ?_⟩
    · rw [hq.running, hq.nextSend]
      exact h.sends i x (hq.sends ▸ hx)
    · rw [hq.running, hq.nextSend]
      exact h.stops j x (hq.stops ▸ hx)
  | spawned pc =>
    refine h.setSend (Nat.le_succ _) (Nat.lt_succ_self _) (fun _ => .inl ?_) (fun k hk => ?_)
      (fun k hk _ => List.mem_append_left _ hk)
    · exact List.mem_append_right _ (List.mem_singleton_self _)
    · exact (List.mem_append.1 hk).imp_right fun hk => (List.mem_singleton.1 hk).ge
  | called =>
    exact h.setSend (Nat.le_succ _) (Nat.lt_succ_self _) nofun (fun k hk => .inl hk)
      (fun k hk _ => hk)
  | sent pc hx hdone =>
    obtain ⟨hlt, htask⟩ := h.sends _ _ hx
    refine h.setSend le_rfl hlt (fun ht => .inl ?_) (fun k hk => .inl hk) (fun k hk _ => hk)
    exact (htask ht).resolve_right hdone
  | finished hx => exact h.finish hx
  | stop j context =>
    refine h.setStop j ⟨le_rfl, fun hp => ?_, fun hr => ?_⟩ 3 s.closed true
    · rw [if_neg hok] at hp
      exact hp.elim
    · rw [if_neg hok] at hr
      cases hr
  | stopping closed pc drain hx hp hd =>
    rename_i j x
    obtain ⟨hsp, hpast, -⟩ := h.stops j x hx
    have hx' : StopOk s.running s.nextSend { x with pc := pc, drain := drain } := by
      refine ⟨hsp, fun hpc => ?_, hd⟩
      rcases hp hpc with hp | hrun
      · exact hpast hp
      · rw [hrun]
        exact nofun
    exact h.setStop j hx' s.state closed s.stopCalled

/-- **`stop` drains the sink.** In every run in which `stop` is not called when the state is already
3, a `stop` call that has returned `Ok` has seen every send task that was spawned before it complete,
and the producer, if there was one, flushed. -/
theorem stop_drains {endpoints : List ℤ}
    (h : (system id name endpoints).Reach Unstopped s) {j : ℕ} {x : Stop}
    (hx : s.stops j = some x) (hr : x.pc = .returned (.ok ())) :
    (∀ i y, s.sends i = some y → y.task = true → i < x.spawned → y.pc = .done) ∧
    x.drain ≠ .pending := by
  have hok : DrainOk s :=
    h.invariant (drainOk_init endpoints) fun _ _ _ hi hok hs => hi.step hok hs
  obtain ⟨-, hpast, hdr⟩ := hok.stops j x hx
  refine ⟨fun i y hy ht hi => ?_, hdr hr⟩
  refine ((hok.sends i y hy).2 ht).resolve_left fun hrun => ?_
  have hle := hpast (by rw [hr]; exact trivial) i hrun
  omega

instance (s : State) : ∀ a, Decidable (Unstopped s a)
  | .stop _ _ => inferInstanceAs (Decidable (s.state ≠ 3))
  | .start _ | .configure _ _ _ | .topics _ _ | .metadata _ _ | .publish _ | .store _
  | .dropStart _ | .spawn _ | .sendSync | .check _ | .locate _ | .delivered _ _ | .finish _
  | .dropSend _ | .close _ | .waited _ | .stopCancelled _ | .flush _ _ | .dropStop _
  | .cancel _ => inferInstanceAs (Decidable True)

/-- One enabled endpoint, and a connector without security. -/
def sampleConfig : RuntimeConfig where
  endpointById _ := some (.kafka ⟨true, "topic", 1⟩)
  dataConnectorById _ := some (.kafka ⟨"broker", .plaintext, "", ""⟩)

/-- The sink is started, and a send task waits for its delivery. -/
def startedAndSending : List Action :=
  [.start 0, .configure 0 sampleConfig .created, .topics 0 (.ok ()), .metadata 0 (.ok [(1, 1)]),
    .publish 0, .store 0, .spawn (.ok ()), .check 0, .locate 0]

/-- `stop` waits for the delivery and flushes. -/
def drained : List Action :=
  startedAndSending ++ [.stop 0 0, .close 0, .delivered 0 (.ok (0, 0)), .finish 0, .waited 0,
    .flush 0 true]

theorem drained_runs :
    (((system 1 "sink" [1]).restrict Unstopped).run (.init [1]) drained).isSome := by
  decide +kernel

theorem stop_drains_drained :
    ∃ s x, (system 1 "sink" [1]).Reach Unstopped s ∧ s.stops 0 = some x ∧
      x.pc = .returned (.ok ()) ∧ x.spawned = 1 ∧
      (∀ i y, s.sends i = some y → y.task = true → i < 1 → y.pc = .done) ∧ x.drain ≠ .pending := by
  have h := (System.reachable_get drained_runs).reach
  have hx : ((((system 1 "sink" [1]).restrict Unstopped).run (.init [1]) drained).get
      drained_runs).stops 0 = some ⟨.returned (.ok ()), 0, 1, .flushed⟩ := rfl
  obtain ⟨htasks, hdrain⟩ := stop_drains h hx rfl
  exact ⟨_, _, h, hx, rfl, rfl, htasks, hdrain⟩

/-- `stop` is cancelled while the task waits for its delivery, and called again. -/
def stoppedTwice : List Action :=
  startedAndSending ++ [.stop 0 0, .close 0, .cancel 0, .stopCancelled 0, .stop 1 1]

theorem stoppedTwice_runs : ((system 1 "sink" [1]).run (.init [1]) stoppedTwice).isSome := by
  decide +kernel

/-- **A repeated `stop` does not wait**: it returns `Ok` although the task that was spawned before it
still waits for its delivery, and nothing was flushed. -/
theorem repeated_stop_skips_drain :
    ∃ s x y, (system 1 "sink" [1]).Reachable s ∧ s.stops 1 = some x ∧
      x.pc = .returned (.ok ()) ∧ s.sends 0 = some y ∧ y.task = true ∧ 0 < x.spawned ∧
      y.pc = .delivering 0 ∧ x.drain = .pending :=
  ⟨_, ⟨.returned (.ok ()), 1, 1, .pending⟩, ⟨.delivering 0, true⟩,
    System.reachable_get stoppedTwice_runs, rfl, rfl, rfl, rfl, Nat.one_pos, rfl, rfl⟩

/-! ## The stopped state -/

/-- A step that does not publish the outcome of `start` after `stop` was called. -/
def PublishedBefore (s : State) : Action → Prop
  | .store _ => s.stopCalled = false
  | _ => True

structure StoppedOk (s : State) : Prop where
  called : ∀ j x, s.stops j = some x → s.stopCalled = true
  state : s.stopCalled = true → s.state = 3

theorem StoppedOk.congr (h : StoppedOk s) (hstops : t.stops = s.stops) (hstate : t.state = s.state)
    (hcalled : t.stopCalled = s.stopCalled) : StoppedOk t :=
  ⟨fun j x hx => by rw [hcalled]; exact h.called j x (hstops ▸ hx),
    fun hc => by rw [hstate]; exact h.state (hcalled ▸ hc)⟩

theorem notify_stops (s : State) (j : ℕ) : ((notify s).stops j).isSome = (s.stops j).isSome := by
  unfold notify
  split_ifs
  · exact Option.isSome_map
  · rfl

theorem StoppedOk.finish (h : StoppedOk s) (i : ℕ) (x : Send) : StoppedOk (finish s i x) := by
  have hnotify : ∀ {u : State}, StoppedOk u → StoppedOk (notify u) := by
    intro u hu
    refine ⟨fun j y hy => ?_, fun hc => ?_⟩
    · have hsome : (u.stops j).isSome := by rw [← notify_stops, hy]; rfl
      obtain ⟨z, hz⟩ := Option.isSome_iff_exists.1 hsome
      unfold notify
      split_ifs <;> exact hu.called j z hz
    · unfold notify at hc ⊢
      split_ifs at hc ⊢ <;> exact hu.state hc
  unfold KafkaSink.finish
  dsimp only
  split_ifs
  · exact hnotify (h.congr rfl rfl rfl)
  · exact h.congr rfl rfl rfl

theorem StoppedOk.step (h : StoppedOk s) (hok : PublishedBefore s a)
    (hs : step id name s a = some t) : StoppedOk t := by
  cases step_effect hs with
  | quiet hq hstate =>
    refine ⟨fun j x hx => ?_, fun hc => ?_⟩
    · rw [hq.stopCalled]
      exact h.called j x (hq.stops ▸ hx)
    · rw [hq.stopCalled] at hc
      rcases hstate with hstate | hstate | ⟨i, rfl⟩
      · rw [hstate, h.state hc]
      · rw [h.state hc] at hstate
        cases hstate
      · rw [PublishedBefore, hc] at hok
        cases hok
  | spawned | called | sent => exact h.congr rfl rfl rfl
  | finished => exact h.finish _ _
  | stop j context => exact ⟨fun _ _ _ => rfl, fun _ => rfl⟩
  | stopping closed pc drain hx =>
    refine ⟨fun j x _ => ?_, h.state⟩
    exact h.called _ _ hx

/-- **The stopped state is absorbing.** In every run in which no `start` publishes its outcome after
`stop` was called, the state is 3 once `stop` has been called; a send that checks the state then
fails, and a `start` is refused. -/
theorem stopped_absorbing {endpoints : List ℤ}
    (h : (system id name endpoints).Reach PublishedBefore s) {j : ℕ} {x : Stop}
    (hx : s.stops j = some x) :
    s.state = 3 ∧
    (∀ i t, step id name s (.check i) = some t →
      ∃ y, t.sends i = some y ∧ y.pc = .replied (.error "Kafka producer is not running")) ∧
    ∀ i t, step id name s (.start i) = some t →
      t.starts i = some (.returned (.error (.resourceStopped name))) ∧ t.state = 3 := by
  have hok : StoppedOk s := h.invariant ⟨nofun, nofun⟩ fun _ _ _ hi hok hs => hi.step hok hs
  have h3 : s.state = 3 := hok.state (hok.called j x hx)
  refine ⟨h3, fun i t hs => ?_, fun i t hs => ?_⟩
  · simp only [step, Option.bind_eq_bind, Option.bind_eq_some_iff, h3] at hs
    obtain ⟨y, hy, hs⟩ := hs
    cases hpc : y.pc <;> simp only [hpc, reduceCtorEq] at hs
    rw [if_pos (by decide), Option.some.injEq] at hs
    exact hs ▸ ⟨_, Function.update_self .., rfl⟩
  · simp only [step, h3] at hs
    cases hi : s.starts i <;> simp only [hi, reduceCtorEq] at hs
    rw [if_neg (by decide), if_pos trivial, Option.some.injEq] at hs
    exact hs ▸ ⟨Function.update_self .., h3⟩

instance (s : State) : ∀ a, Decidable (PublishedBefore s a)
  | .store _ => inferInstanceAs (Decidable (s.stopCalled = false))
  | .start _ | .configure _ _ _ | .topics _ _ | .metadata _ _ | .publish _ | .stop _ _
  | .dropStart _ | .spawn _ | .sendSync | .check _ | .locate _ | .delivered _ _ | .finish _
  | .dropSend _ | .close _ | .waited _ | .stopCancelled _ | .flush _ _ | .dropStop _
  | .cancel _ => inferInstanceAs (Decidable True)

/-- The sink is stopped after `start` has returned, and a send is made. -/
def sentAfterStop : List Action :=
  startedAndSending ++ [.stop 0 0, .spawn (.ok ())]

theorem sentAfterStop_runs :
    (((system 1 "sink" [1]).restrict PublishedBefore).run (.init [1]) sentAfterStop).isSome := by
  decide +kernel

theorem stopped_absorbing_sentAfterStop :
    ∃ s, (system 1 "sink" [1]).Reach PublishedBefore s ∧ s.state = 3 ∧
      ∀ t, step 1 "sink" s (.check 1) = some t →
        ∃ y, t.sends 1 = some y ∧ y.pc = .replied (.error "Kafka producer is not running") := by
  have h := (System.reachable_get sentAfterStop_runs).reach
  have hx : ((((system 1 "sink" [1]).restrict PublishedBefore).run (.init [1]) sentAfterStop).get
      sentAfterStop_runs).stops 0 = some ⟨.closing, 0, 1, .pending⟩ := rfl
  obtain ⟨h3, hsend, -⟩ := stopped_absorbing h hx
  exact ⟨_, h, h3, hsend 1⟩

/-- `stop` is called and returns while `start` waits for the brokers; `start` then publishes, and a
send is made. -/
def stoppedDuringStart : List Action :=
  [.start 0, .configure 0 sampleConfig .created, .stop 0 0, .close 0, .waited 0, .flush 0 true,
    .topics 0 (.ok ()), .metadata 0 (.ok [(1, 1)]), .publish 0, .store 0, .spawn (.ok ()),
    .check 0, .locate 0, .delivered 0 (.ok (0, 0))]

theorem stoppedDuringStart_runs :
    ((system 1 "sink" [1]).run (.init [1]) stoppedDuringStart).isSome := by
  decide +kernel

/-- **`start` overwrites `stop`**: `stop` has returned `Ok`, the state is 2, and a send that was made
afterwards is delivered. -/
theorem start_overwrites_stop :
    ∃ s x y, (system 1 "sink" [1]).Reachable s ∧ s.stops 0 = some x ∧
      x.pc = .returned (.ok ()) ∧ s.state = 2 ∧ s.sends 0 = some y ∧ x.spawned ≤ 0 ∧
      y.pc = .replied (.ok (0, 0)) :=
  ⟨_, ⟨.returned (.ok ()), 0, 0, .noProducer⟩, ⟨.replied (.ok (0, 0)), true⟩,
    System.reachable_get stoppedDuringStart_runs, rfl, rfl, rfl, rfl, le_rfl, rfl⟩

end KafkaSink

end ServiceLib
