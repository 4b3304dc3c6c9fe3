import ServiceLib.Runtime.Error
import ServiceLib.Transition

/-!
# The gRPC data sink

Follows `TonicDataSink` in `src/datasink/grpc/tonic.rs`. Its `state` is 0 before `start`, 1 from then
on and 2 after `stop`; the channels live behind a lock of their own. A call of `start`,
`reload_address` or `stop` touches the two in separate steps, and each of these is one action here.

**Theorem (`channels_follow_lifecycle`).** As long as every write of channels is `Safe`, a started
sink has channels until it is stopped, and a stopped one has none for ever.

A write is not safe when it puts channels back after a `stop` has returned, which a `start` or a
`reload_address` does that was overtaken by the `stop` (`overtakenWrite`), or when it takes them
away from a running sink: `reload_address` does not check that `connections_count` is positive, as
`start` does (`zeroConnections`). The theorem shows as well that `Safe` leaves out no other write:
every other one leads to a state in which the sink fails its callers.

The configuration that a call sees is arbitrary, and so is what `tonic` makes of an address.
-/

namespace ServiceLib

namespace TonicSink

/-! ## Addresses and configuration -/

/-- What `endpoint` uses of `tonic` and `http`, and the debug format of a string. -/
structure Transport (Endpoint Authority : Type) where
  fromShared : String → Except String Endpoint
  parseAuthority : String → Except String Authority
  host : Authority → String
  port : Authority → Option String
  portU16 : Authority → Option ℕ
  display : Authority → String
  debug : String → String

/-- `str::strip_prefix`. -/
def stripPrefix (pattern text : String) : Option String :=
  if pattern.toList.isPrefixOf text.toList then
    some (String.ofList (text.toList.drop pattern.toList.length))
  else none

/-- The part of `GrpcDataConnectorConfig` that the sink reads. -/
structure ConnectorConfig where
  address : String
  connectionsCount : ℕ

inductive RuntimeDataConnectorConfig
  | grpc (config : ConnectorConfig)
  | other

/-- The sink: its id and name. -/
structure Sink where
  id : ℤ
  name : String

section Configuration

variable {Endpoint Authority : Type} (transport : Transport Endpoint Authority) (sink : Sink)

def invalid (address error : String) : RuntimeError :=
  .invalidConfiguration ("gRPC address " ++ transport.debug address ++ ": " ++ error)

def fromShared (address uri : String) : RuntimeResult Endpoint :=
  (transport.fromShared uri).mapError (invalid transport address)

def endpoint (address : String) : RuntimeResult Endpoint :=
  match stripPrefix "dns:" address with
  | none => fromShared transport address address
  | some target =>
    let target := (stripPrefix "///" target).getD target
    if "//".toList.isPrefixOf target.toList then
      .error (invalid transport address "custom DNS resolver authorities are not supported")
    else
      match transport.parseAuthority target with
      | .error error => .error (invalid transport address error)
      | .ok authority =>
        if (transport.host authority).isEmpty || target.toList.contains '@' ||
            target.toList.getLast? == some ':' ||
            ((transport.port authority).isSome && (transport.portU16 authority).isNone) then
          .error (invalid transport address "expected a DNS host and optional numeric port")
        else
          let port := if (transport.port authority).isNone then ":443" else ""
          fromShared transport address ("http://" ++ transport.display authority ++ port)

def validateConfig (config : ConnectorConfig) : RuntimeResult Endpoint :=
  if config.connectionsCount = 0 then
    .error (.invalidConfiguration "gRPC connections_count must be at least 1")
  else endpoint transport config.address

/-- A channel is known by the endpoint it connects to. -/
def makeChannels (endpoint : Endpoint) (connectionsCount : ℕ) : List Endpoint :=
  List.replicate connectionsCount endpoint

/-- `connector_config`, where the runtime configuration has `connector` under the sink's id. -/
def connectorConfig (connector : Option RuntimeDataConnectorConfig) :
    RuntimeResult ConnectorConfig :=
  match connector with
  | none => .error (.invalidConfiguration s!"gRPC data connector {sink.id} is not configured")
  | some (.grpc config) => .ok config
  | some .other =>
    .error (.invalidConfiguration
      ("data connector " ++ transport.debug sink.name ++ " is not gRPC"))

/-- The channels that `start` makes. -/
def startChannels (connector : Option RuntimeDataConnectorConfig) :
    RuntimeResult (List Endpoint) := do
  let config ← connectorConfig transport sink connector
  let endpoint ← validateConfig transport config
  return makeChannels endpoint config.connectionsCount

/-- The channels that `reload_address` makes. -/
def reloadChannels (address : String) (connector : Option RuntimeDataConnectorConfig) :
    RuntimeResult (List Endpoint) := do
  let endpoint ← endpoint transport address
  let config ← connectorConfig transport sink connector
  return makeChannels endpoint config.connectionsCount

end Configuration

/-! ## The system -/

inductive Op
  | start
  | reloadAddress (address : String)
  | stop
  | channel
  deriving DecidableEq

/-- What a call does next. -/
inductive Pc (Endpoint : Type)
  /-- `start`: take the state from 0 to 1. -/
  | exchanging
  /-- `start`: read the configuration and make the channels. -/
  | configuring
  /-- `reload_address`: the same. -/
  | preparing (address : String)
  /-- `reload_address`: is the state 1? -/
  | checking (channels : List Endpoint)
  /-- `start` and `reload_address`: write the channels. -/
  | publishing (channels : List Endpoint)
  /-- `start` and `reload_address`: set `next_channel` to 0. -/
  | rewinding
  /-- `stop`: store 2 into the state. -/
  | storing
  /-- `stop`: clear the channels. -/
  | clearing
  /-- `channel`: take the read lock. -/
  | taking
  | returned (result : RuntimeResult Unit)
  | took (result : RuntimeResult Endpoint)

structure Call (Endpoint : Type) where
  op : Op
  pc : Pc Endpoint

/-- The sink and its callers. -/
structure State (Endpoint : Type) where
  channels : List Endpoint
  nextChannel : ℕ
  state : ℕ
  calls : ℕ → Option (Call Endpoint)

def State.init (Endpoint : Type) : State Endpoint where
  channels := []
  nextChannel := 0
  state := 0
  calls := fun _ => none

inductive Action
  | call (c : ℕ) (op : Op)
  /-- Call `c` takes its next step; `connector` is what the configuration holds at that moment. -/
  | next (c : ℕ) (connector : Option RuntimeDataConnectorConfig)

section Step

variable {Endpoint Authority : Type} (transport : Transport Endpoint Authority) (sink : Sink)

def Op.entry : Op → Pc Endpoint
  | .start => .exchanging
  | .reloadAddress address => .preparing address
  | .stop => .storing
  | .channel => .taking

def State.setCall (s : State Endpoint) (c : ℕ) (x : Call Endpoint) : State Endpoint :=
  { s with calls := Function.update s.calls c (some x) }

/-- `channel`. The read lock is held from the check to the end, so the channels do not change in
between; `next_channel` wraps around. -/
def channel (s : State Endpoint) : RuntimeResult Endpoint × ℕ :=
  if h : s.channels = [] then (.error (.resourceStopped sink.name), s.nextChannel)
  else
    (.ok (s.channels.get ⟨s.nextChannel % s.channels.length,
      Nat.mod_lt _ (List.length_pos_iff.mpr h)⟩), (s.nextChannel + 1) % 2 ^ 64)

/-- Go on with `make`'s channels, or return its error. -/
def made (make : RuntimeResult (List Endpoint)) (next : List Endpoint → Pc Endpoint) :
    Pc Endpoint :=
  match make with
  | .ok channels => next channels
  | .error error => .returned (.error error)

/-- One step of a call: what becomes of the sink, and where the call stands then. -/
def advance (s : State Endpoint) (connector : Option RuntimeDataConnectorConfig) :
    Pc Endpoint → Option (State Endpoint × Pc Endpoint)
  | .exchanging =>
    if s.state = 0 then some ({ s with state := 1 }, .configuring)
    else if s.state = 2 then some (s, .returned (.error (.resourceStopped sink.name)))
    else some (s, .returned (.error (.resourceAlreadyStarted sink.name)))
  | .configuring => some (s, made (startChannels transport sink connector) .publishing)
  | .preparing address =>
    some (s, made (reloadChannels transport sink address connector) .checking)
  | .checking channels =>
    if s.state = 1 then some (s, .publishing channels) else some (s, .returned (.ok ()))
  | .publishing channels => some ({ s with channels := channels }, .rewinding)
  | .rewinding => some ({ s with nextChannel := 0 }, .returned (.ok ()))
  | .storing => some ({ s with state := 2 }, .clearing)
  | .clearing => some ({ s with channels := [] }, .returned (.ok ()))
  | .taking =>
    let (result, nextChannel) := channel sink s
    some ({ s with nextChannel := nextChannel }, .took result)
  | .returned _ | .took _ => none

def step (s : State Endpoint) : Action → Option (State Endpoint)
  | .call c op =>
    match s.calls c with
    | some _ => none
    | none => some (s.setCall c ⟨op, op.entry⟩)
  | .next c connector =>
    match s.calls c with
    | none => none
    | some x => (advance transport sink s connector x.pc).map fun (s, pc) => s.setCall c ⟨x.op, pc⟩

def system : System (State Endpoint) Action where
  init := .init Endpoint
  step := step transport sink

end Step

/-! ## The property and the condition -/

section Properties

variable {Endpoint Authority : Type} (s : State Endpoint)

/-- A `start` has returned `Ok`. -/
def Started : Prop := ∃ c, s.calls c = some ⟨.start, .returned (.ok ())⟩

/-- A `start` has written its channels. -/
def Published : Prop :=
  ∃ c x, s.calls c = some x ∧ x.op = .start ∧ (x.pc = .rewinding ∨ x.pc = .returned (.ok ()))

/-- A `stop` has begun. -/
def StopCalled : Prop := ∃ c x, s.calls c = some x ∧ x.op = .stop

/-- A `stop` has returned. -/
def Stopped : Prop := ∃ c, s.calls c = some ⟨.stop, .returned (.ok ())⟩

/-- What callers may rely on. -/
structure Serves (sink : Sink) : Prop where
  started : Started s → ¬ StopCalled s →
    s.channels ≠ [] ∧ ∃ x ∈ s.channels, (channel sink s).1 = .ok x
  stopped : Stopped s →
    s.channels = [] ∧ (channel sink s).1 = .error (.resourceStopped sink.name)

/-- A write of channels that neither puts channels back after a `stop` nor leaves a running sink
without any. -/
def Safe : Action → Prop
  | .next c _ => ∀ x channels, s.calls c = some x → x.pc = .publishing channels →
      (Stopped s → channels = []) ∧ (Published s → ¬ StopCalled s → channels ≠ [])
  | .call _ _ => True

/-- Where a call of an operation can stand. The channels of `start` are validated. -/
def Op.At : Op → Pc Endpoint → Prop
  | .start, .publishing channels => channels ≠ []
  | .start, .exchanging | .start, .configuring | .start, .rewinding | .start, .returned _ => True
  | .reloadAddress _, .preparing _ | .reloadAddress _, .checking _
  | .reloadAddress _, .publishing _ | .reloadAddress _, .rewinding
  | .reloadAddress _, .returned _ => True
  | .stop, .storing | .stop, .clearing | .stop, .returned _ => True
  | .channel, .taking | .channel, .took _ => True
  | _, _ => False

/-- The invariant of safe runs. -/
structure Inv : Prop where
  placed : ∀ c x, s.calls c = some x → x.op.At x.pc
  published : Published s → ¬ StopCalled s → s.channels ≠ []
  stopped : Stopped s → s.channels = []

end Properties

/-! ## What a step does -/

section Steps

variable {Endpoint Authority : Type} {transport : Transport Endpoint Authority} {sink : Sink}
  {s s' t : State Endpoint} {a : Action} {c : ℕ} {x : Call Endpoint} {pc pc' : Pc Endpoint}
  {connector : Option RuntimeDataConnectorConfig} {op : Op}

theorem startChannels_ne_nil {channels : List Endpoint}
    (h : startChannels transport sink connector = .ok channels) : channels ≠ [] := by
  unfold startChannels at h
  cases hconfig : connectorConfig transport sink connector with
  | error error =>
    rw [hconfig] at h
    cases h
  | ok config =>
    rw [hconfig] at h
    simp only [validateConfig, bind, Except.bind] at h
    split_ifs at h with hcount
    cases hendpoint : endpoint transport config.address with
    | error error =>
      rw [hendpoint] at h
      cases h
    | ok endpoint =>
      rw [hendpoint] at h
      cases h
      simpa [makeChannels] using hcount

/-- What a step of a call does to the channels, and how the call gets to its last steps. -/
inductive Moves (s : State Endpoint) : Pc Endpoint → State Endpoint → Pc Endpoint → Prop
  | write {s' : State Endpoint} (channels : List Endpoint) (h : s'.channels = channels) :
    Moves s (.publishing channels) s' .rewinding
  | clear {s' : State Endpoint} (h : s'.channels = []) :
    Moves s .clearing s' (.returned (.ok ()))
  | keep {s' : State Endpoint} {pc pc' : Pc Endpoint} (h : s'.channels = s.channels)
    (hrewind : pc' ≠ .rewinding)
    (hreturn : pc' = .returned (.ok ()) → pc = .rewinding ∨ ∃ channels, pc = .checking channels) :
    Moves s pc s' pc'

theorem made_ne_rewinding {make : RuntimeResult (List Endpoint)}
    {next : List Endpoint → Pc Endpoint} (h : ∀ channels, next channels ≠ .rewinding) :
    made make next ≠ .rewinding := by
  cases make with
  | ok channels => exact h channels
  | error error => exact nofun

theorem made_ne_returned {make : RuntimeResult (List Endpoint)}
    {next : List Endpoint → Pc Endpoint} (h : ∀ channels, next channels ≠ .returned (.ok ())) :
    made make next ≠ .returned (.ok ()) := by
  cases make with
  | ok channels => exact h channels
  | error error => exact nofun

theorem advance_moves (h : advance transport sink s connector pc = some (s', pc')) :
    s'.calls = s.calls ∧ Moves s pc s' pc' := by
  cases pc with
  | exchanging =>
    simp only [advance] at h
    split_ifs at h <;> cases h <;> exact ⟨rfl, .keep rfl nofun nofun⟩
  | configuring =>
    cases h
    exact ⟨rfl, .keep rfl (made_ne_rewinding nofun) fun hp => absurd hp (made_ne_returned nofun)⟩
  | preparing address =>
    cases h
    exact ⟨rfl, .keep rfl (made_ne_rewinding nofun) fun hp => absurd hp (made_ne_returned nofun)⟩
  | checking channels =>
    simp only [advance] at h
    split_ifs at h <;> cases h
    · exact ⟨rfl, .keep rfl nofun nofun⟩
    · exact ⟨rfl, .keep rfl nofun fun _ => .inr ⟨channels, rfl⟩⟩
  | publishing channels =>
    cases h
    exact ⟨rfl, .write channels rfl⟩
  | rewinding =>
    cases h
    exact ⟨rfl, .keep rfl nofun fun _ => .inl rfl⟩
  | storing =>
    cases h
    exact ⟨rfl, .keep rfl nofun nofun⟩
  | clearing =>
    cases h
    exact ⟨rfl, .clear rfl⟩
  | taking =>
    cases h
    exact ⟨rfl, .keep rfl nofun nofun⟩
  | returned result => cases h
  | took result => cases h

theorem Op.at_entry (op : Op) : op.At (Op.entry op : Pc Endpoint) := by
  cases op <;> trivial

/-- A call moves among the places of its operation. -/
theorem advance_at (hat : op.At pc)
    (h : advance transport sink s connector pc = some (s', pc')) : op.At pc' := by
  cases op <;> cases pc <;> first | exact hat.elim | skip
  case start.exchanging | reloadAddress.checking =>
    simp only [advance] at h
    split_ifs at h <;> cases h <;> trivial
  case start.configuring =>
    cases h
    cases hmake : startChannels transport sink connector with
    | ok channels => exact startChannels_ne_nil hmake
    | error error => trivial
  case reloadAddress.preparing =>
    cases h
    unfold made
    split <;> trivial
  case start.returned | reloadAddress.returned | stop.returned | channel.took => cases h
  all_goals
    cases h
    trivial

theorem step_cases (h : step transport sink s a = some t) :
    (∃ c op, a = .call c op ∧ s.calls c = none ∧ t = s.setCall c ⟨op, op.entry⟩) ∨
      ∃ c connector x s' pc, a = .next c connector ∧ s.calls c = some x ∧
        advance transport sink s connector x.pc = some (s', pc) ∧
        t = s'.setCall c ⟨x.op, pc⟩ := by
  cases a with
  | call c op =>
    simp only [step] at h
    split at h
    · cases h
    · exact .inl ⟨c, op, rfl, ‹_›, (Option.some.inj h).symm⟩
  | next c connector =>
    simp only [step] at h
    split at h
    · cases h
    · rename_i x hx
      obtain ⟨⟨s', pc⟩, hadv, ht⟩ := Option.map_eq_some_iff.mp h
      exact .inr ⟨c, connector, x, s', pc, rfl, hx, hadv, ht.symm⟩

end Steps

/-! ## The invariant over a run -/

section Run

variable {Endpoint Authority : Type} {transport : Transport Endpoint Authority} {sink : Sink}
  {s s' t : State Endpoint} {a : Action} {c : ℕ} {x y : Call Endpoint} {op : Op}

theorem setCall_self : (s.setCall c x).calls c = some x :=
  Function.update_self ..

theorem setCall_of_ne {d : ℕ} (h : d ≠ c) : (s.setCall c x).calls d = s.calls d :=
  Function.update_of_ne h ..

theorem setCall_cases {d : ℕ} (h : (s.setCall c x).calls d = some y) :
    (d = c ∧ y = x) ∨ (d ≠ c ∧ s.calls d = some y) := by
  by_cases hd : d = c
  · subst hd
    rw [setCall_self] at h
    exact .inl ⟨rfl, (Option.some.inj h).symm⟩
  · rw [setCall_of_ne hd] at h
    exact .inr ⟨hd, h⟩

/-- `start` has written its channels when it did so now, or had before. -/
theorem Published.of_setCall (h : Published (s.setCall c x)) :
    Published s ∨ (x.op = .start ∧ (x.pc = .rewinding ∨ x.pc = .returned (.ok ()))) := by
  obtain ⟨d, y, hy, hop, hpc⟩ := h
  rcases setCall_cases hy with ⟨-, rfl⟩ | ⟨-, hy⟩
  · exact .inr ⟨hop, hpc⟩
  · exact .inl ⟨d, y, hy, hop, hpc⟩

theorem Stopped.of_setCall (h : Stopped (s.setCall c x)) :
    Stopped s ∨ (x.op = .stop ∧ x.pc = .returned (.ok ())) := by
  obtain ⟨d, hd⟩ := h
  rcases setCall_cases hd with ⟨-, rfl⟩ | ⟨-, hd⟩
  · exact .inr ⟨rfl, rfl⟩
  · exact .inl ⟨d, hd⟩

/-- A call keeps its operation. -/
theorem step_op (h : step transport sink s a = some t) (hx : s.calls c = some x) :
    ∃ y, t.calls c = some y ∧ y.op = x.op := by
  rcases step_cases h with ⟨d, op, -, hd, rfl⟩ | ⟨d, connector, z, s', pc, -, hd, hadv, rfl⟩
  · have hne : c ≠ d := by
      rintro rfl
      rw [hd] at hx
      cases hx
    exact ⟨x, by rw [setCall_of_ne hne, hx], rfl⟩
  · by_cases hcd : c = d
    · subst hcd
      rw [hd] at hx
      cases hx
      exact ⟨_, setCall_self, rfl⟩
    · refine ⟨x, ?_, rfl⟩
      rw [setCall_of_ne hcd, (advance_moves hadv).1, hx]

theorem StopCalled.step (h : step transport sink s a = some t) (hc : StopCalled s) :
    StopCalled t := by
  obtain ⟨c, x, hx, hop⟩ := hc
  obtain ⟨y, hy, hyop⟩ := step_op h hx
  exact ⟨c, y, hy, hyop.trans hop⟩

/-- A call that has returned stays as it is. -/
theorem step_returned {result : RuntimeResult Unit} (h : step transport sink s a = some t)
    (hx : s.calls c = some ⟨op, .returned result⟩) : t.calls c = some ⟨op, .returned result⟩ := by
  rcases step_cases h with ⟨d, o, -, hd, rfl⟩ | ⟨d, connector, z, s', pc, -, hd, hadv, rfl⟩
  · rw [setCall_of_ne, hx]
    rintro rfl
    rw [hd] at hx
    cases hx
  · rw [setCall_of_ne, (advance_moves hadv).1, hx]
    rintro rfl
    rw [hd] at hx
    cases hx
    cases hadv

theorem inv_init : Inv (State.init Endpoint) where
  placed := nofun
  published := by
    rintro ⟨_, _, ⟨⟩, _⟩
  stopped _ := rfl

theorem Inv.call (h : Inv s) (hs : step transport sink s (.call c op) = some t)
    (ht : t = s.setCall c ⟨op, op.entry⟩) : Inv t := by
  have hcalled : ¬ StopCalled t → ¬ StopCalled s := mt (StopCalled.step hs)
  subst ht
  refine ⟨fun d y hy => ?_, fun hp hn => ?_, fun hstop => ?_⟩
  · rcases setCall_cases hy with ⟨-, rfl⟩ | ⟨-, hy⟩
    · exact op.at_entry
    · exact h.placed d y hy
  · rcases hp.of_setCall with hp | ⟨-, hpc⟩
    · exact h.published hp (hcalled hn)
    · cases op <;> rcases hpc with hpc | hpc <;> cases hpc
  · rcases hstop.of_setCall with hstop | ⟨-, hpc⟩
    · exact h.stopped hstop
    · cases op <;> cases hpc

/-- **What a safe step keeps.** Channels change only in a write, which `Safe` confines, and in the
last step of `stop`. -/
theorem Inv.next (h : Inv s) (hsafe : Safe s a) (hs : step transport sink s a = some t) : Inv t := by
  have hcalled : ¬ StopCalled t → ¬ StopCalled s := mt (StopCalled.step hs)
  rcases step_cases hs with ⟨c, op, rfl, -, ht⟩ | ⟨c, connector, x, s', pc, rfl, hc, hadv, ht⟩
  · exact h.call hs ht
  have hat := h.placed c x hc
  have hat' := advance_at hat hadv
  obtain ⟨hcalls, hmoves⟩ := advance_moves hadv
  have hpublished : Published s' → Published s := by
    rintro ⟨d, y, hy, hp⟩
    exact ⟨d, y, by rw [← hcalls, hy], hp⟩
  have hstopped : Stopped s' → Stopped s := by
    rintro ⟨d, hd⟩
    exact ⟨d, by rw [← hcalls, hd]⟩
  have hplaced : ∀ d y, t.calls d = some y → y.op.At y.pc := by
    intro d y hy
    subst ht
    rcases setCall_cases hy with ⟨-, rfl⟩ | ⟨-, hy⟩
    · exact hat'
    · exact h.placed d y (by rw [← hcalls, hy])
  obtain ⟨op, pc₀⟩ := x
  have hchannels : t.channels = s'.channels := by rw [ht]; rfl
  cases hmoves with
  | write channels hw =>
    obtain ⟨hempty, hsome⟩ := hsafe _ channels hc rfl
    rw [hw] at hchannels
    refine ⟨hplaced, fun hp hn => ?_, fun hstop => ?_⟩
    · rw [hchannels]
      subst ht
      rcases hp.of_setCall with hp | ⟨hop, -⟩
      · exact hsome (hpublished hp) (hcalled hn)
      · change op = .start at hop
        subst hop
        exact hat
    · rw [hchannels]
      subst ht
      rcases hstop.of_setCall with hstop | ⟨-, hpc⟩
      · exact hempty (hstopped hstop)
      · cases hpc
  | clear hw =>
    have hop : op = .stop := by cases op <;> first | rfl | exact hat.elim
    have hcall : StopCalled t := ⟨c, _, by rw [ht, setCall_self], hop⟩
    exact ⟨hplaced, fun _ hn => absurd hcall hn, fun _ => hchannels.trans hw⟩
  | keep hw hrewind hreturn =>
    refine ⟨hplaced, fun hp hn => ?_, fun hstop => ?_⟩
    · rw [hchannels, hw]
      refine h.published ?_ (hcalled hn)
      subst ht
      rcases hp.of_setCall with hp | ⟨hop, hpc | hpc⟩
      · exact hpublished hp
      · exact absurd hpc hrewind
      · change op = .start at hop
        subst hop
        rcases hreturn hpc with rfl | ⟨channels, rfl⟩
        · exact ⟨c, _, hc, rfl, .inl rfl⟩
        · exact hat.elim
    · rw [hchannels, hw]
      refine h.stopped ?_
      subst ht
      rcases hstop.of_setCall with hstop | ⟨hop, hpc⟩
      · exact hstopped hstop
      · change op = .stop at hop
        subst hop
        rcases hreturn hpc with rfl | ⟨channels, rfl⟩ <;> exact hat.elim

theorem inv_of_reach (h : (system transport sink).Reach Safe s) : Inv s :=
  h.invariant inv_init fun _ _ _ hi hsafe hs => hi.next hsafe hs

end Run

/-! ## Main results -/

section Main

variable {Endpoint Authority : Type} {transport : Transport Endpoint Authority} {sink : Sink}
  {s t : State Endpoint} {a : Action} {c : ℕ} {x : Call Endpoint}

theorem channel_ok (h : s.channels ≠ []) : ∃ x ∈ s.channels, (channel sink s).1 = .ok x := by
  rw [channel, dif_neg h]
  exact ⟨_, List.get_mem .., rfl⟩

theorem channel_stopped (h : s.channels = []) :
    (channel sink s).1 = .error (.resourceStopped sink.name) := by
  rw [channel, dif_pos h]

theorem Inv.serves (h : Inv s) : Serves s sink where
  started := by
    rintro ⟨c, hc⟩ hn
    have hchannels := h.published ⟨c, _, hc, rfl, .inr rfl⟩ hn
    exact ⟨hchannels, channel_ok hchannels⟩
  stopped hstop := ⟨h.stopped hstop, channel_stopped (h.stopped hstop)⟩

theorem StopCalled.of_setCall (h : StopCalled (s.setCall c x)) : StopCalled s ∨ x.op = .stop := by
  obtain ⟨d, y, hy, hop⟩ := h
  rcases setCall_cases hy with ⟨-, rfl⟩ | ⟨-, hy⟩
  · exact .inr hop
  · exact .inl ⟨d, y, hy, hop⟩

/-- A running sink without channels fails its callers, at the latest when `start` returns. -/
theorem not_serves_of_published (hp : Published s) (hn : ¬ StopCalled s) (h : s.channels = []) :
    ∃ as u, (system transport sink).run s as = some u ∧ ¬ Serves u sink := by
  obtain ⟨d, ⟨op, pc⟩, hd, rfl, rfl | rfl⟩ := hp
  · have hs : (system transport sink).step s (.next d none) =
        some (State.setCall { s with nextChannel := 0 } d ⟨.start, .returned (.ok ())⟩) := by
      show step transport sink s (.next d none) = _
      simp only [step, hd]
      rfl
    have hrun := System.run_singleton hs
    refine ⟨_, _, hrun, fun hserves => ?_⟩
    refine (hserves.started ⟨d, setCall_self⟩ fun hc => ?_).1 h
    rcases hc.of_setCall with hc | hop
    · exact hn hc
    · cases hop
  · exact ⟨[], s, rfl, fun hserves => (hserves.started ⟨d, hd⟩ hn).1 h⟩

theorem not_serves_of_not_safe (hs : step transport sink s a = some t) (hn : ¬ Safe s a) :
    ∃ as u, (system transport sink).run t as = some u ∧ ¬ Serves u sink := by
  rcases step_cases hs with ⟨c, op, rfl, -, -⟩ | ⟨c, connector, x, s', pc, rfl, hc, hadv, ht⟩
  · exact absurd trivial hn
  simp only [Safe, not_forall] at hn
  obtain ⟨y, channels, hy, hpc, hn⟩ := hn
  rw [hc] at hy
  cases hy
  rw [hpc] at hadv
  cases hadv
  rw [not_and_or] at hn
  rcases hn with hn | hn
  · -- A `stop` has returned, and the write puts channels back.
    obtain ⟨⟨d, hd⟩, hchannels⟩ := Classical.not_imp.mp hn
    refine ⟨[], t, rfl, fun hserves => hchannels ?_⟩
    have h := (hserves.stopped ⟨d, step_returned hs hd⟩).1
    rw [ht] at h
    exact h
  · -- The sink runs, and the write leaves it without channels.
    obtain ⟨⟨d, y, hy, hop, hypc⟩, hn⟩ := Classical.not_imp.mp hn
    obtain ⟨hcalled, hchannels⟩ := Classical.not_imp.mp hn
    have hne : d ≠ c := by
      rintro rfl
      rw [hc] at hy
      cases hy
      rcases hypc with hypc | hypc <;> rw [hpc] at hypc <;> cases hypc
    subst ht
    refine not_serves_of_published ⟨d, y, ?_, hop, hypc⟩ (fun h => ?_) (not_not.mp hchannels)
    · rw [setCall_of_ne hne]
      exact hy
    · rcases h.of_setCall with h | hop
      · exact hcalled h
      · exact hcalled ⟨c, x, hc, hop⟩

/-- **Channels follow the lifecycle.** In every run all of whose writes of channels are safe: when a
`start` has returned `Ok` and no `stop` has begun, the sink has channels and `channel` returns one
of them; when a `stop` has returned, the sink has none and `channel` returns `ResourceStopped`, and
a returned `stop` stays one. A write that is not safe leads to a state where this fails. -/
theorem channels_follow_lifecycle (h : (system transport sink).Reach Safe s) :
    Serves s sink ∧
      ∀ a t, step transport sink s a = some t →
        (Stopped s → Stopped t) ∧
        (¬ Safe s a → ∃ as u, (system transport sink).run t as = some u ∧ ¬ Serves u sink) := by
  have hi := inv_of_reach h
  refine ⟨hi.serves, fun a t hs => ⟨?_, not_serves_of_not_safe hs⟩⟩
  rintro ⟨c, hc⟩
  exact ⟨c, step_returned hs hc⟩

end Main

/-! ## Runs -/

/-- Every address is an endpoint. -/
def anyAddress : Transport String String where
  fromShared := .ok
  parseAuthority := .ok
  host authority := authority
  port _ := none
  portU16 _ := none
  display authority := authority
  debug := String.quote

def inventory : Sink := ⟨1, "inventory"⟩

/-- The configured connector, with this many connections. -/
def connections (count : ℕ) : Option RuntimeDataConnectorConfig :=
  some (.grpc ⟨"http://127.0.0.1:9202", count⟩)

/-- Call `c` from its beginning, for `n` steps. -/
def steps (c : ℕ) (op : Op) (connector : Option RuntimeDataConnectorConfig) (n : ℕ) :
    List Action :=
  .call c op :: List.replicate n (.next c connector)

/-- The sink is started, and its address reloaded under a configuration without connections. -/
def zeroConnections : List Action :=
  steps 0 .start (connections 2) 4 ++ steps 1 (.reloadAddress "http://10.0.0.1:9202") (connections 0) 4

/-- A `start` is overtaken by a `stop` when it is about to write its channels. -/
def overtakenWrite : List Action :=
  steps 0 .start (connections 2) 2 ++ steps 1 .stop none 2 ++ [.next 0 none]

theorem zeroConnections_runs :
    ((system anyAddress inventory).run (.init String) zeroConnections).isSome := by
  decide +kernel

theorem overtakenWrite_runs :
    ((system anyAddress inventory).run (.init String) overtakenWrite).isSome := by
  decide +kernel

/-- A started sink without channels, though no `stop` was called; and a stopped one with two. -/
theorem lifecycle_not_followed :
    (∃ s, (system anyAddress inventory).Reachable s ∧ Started s ∧ ¬ StopCalled s ∧
      s.channels = []) ∧
    ∃ s, (system anyAddress inventory).Reachable s ∧ Stopped s ∧
      s.channels = List.replicate 2 "http://127.0.0.1:9202" := by
  refine ⟨⟨_, System.reachable_get (S := system anyAddress inventory) zeroConnections_runs,
      ⟨0, rfl⟩, ?_, rfl⟩,
    _, System.reachable_get (S := system anyAddress inventory) overtakenWrite_runs, ⟨1, rfl⟩, rfl⟩
  rintro ⟨c, x, hx, hop⟩
  match c with
  | 0 | 1 =>
    cases hx
    cases hop
  | c + 2 => cases hx

theorem safe_of_only_start {Endpoint : Type} {s : State Endpoint} {x : Call Endpoint}
    (h0 : s.calls 0 = some x) (h : ∀ c, s.calls (c + 1) = none) (hop : x.op = .start)
    (a : Action) : Safe s a := by
  cases a with
  | call c op => trivial
  | next c connector =>
    intro y channels hy hpc
    have honly : ∀ d z, s.calls d = some z → z = x := by
      intro d z hz
      cases d with
      | zero => exact Option.some.inj (hz.symm.trans h0)
      | succ d =>
        rw [h d] at hz
        cases hz
    obtain rfl := honly c y hy
    constructor
    · rintro ⟨d, hd⟩
      have hstop : (⟨.stop, .returned (.ok ())⟩ : Call Endpoint).op = .start :=
        (congrArg Call.op (honly d _ hd)).trans hop
      cases hstop
    · rintro ⟨d, z, hz, -, hzpc⟩
      rw [honly d z hz, hpc] at hzpc
      rcases hzpc with hzpc | hzpc <;> cases hzpc

/-- A sink that has been started serves its callers. -/
theorem channels_follow_lifecycle_start :
    ∃ s, (system anyAddress inventory).Reach Safe s ∧ Started s ∧ ¬ StopCalled s ∧
      ∃ x ∈ s.channels, (channel inventory s).1 = .ok x := by
  have h1 : (system anyAddress inventory).Reach Safe _ :=
    .step (a := .call 0 .start) .init trivial rfl
  have h2 : (system anyAddress inventory).Reach Safe _ :=
    .step (a := .next 0 none) h1 (safe_of_only_start rfl (fun _ => rfl) rfl _) rfl
  have h3 : (system anyAddress inventory).Reach Safe _ :=
    .step (a := .next 0 (connections 2)) h2 (safe_of_only_start rfl (fun _ => rfl) rfl _) rfl
  have h4 : (system anyAddress inventory).Reach Safe _ :=
    .step (a := .next 0 none) h3 (safe_of_only_start rfl (fun _ => rfl) rfl _) rfl
  have h5 : (system anyAddress inventory).Reach Safe _ :=
    .step (a := .next 0 none) h4 (safe_of_only_start rfl (fun _ => rfl) rfl _) rfl
  refine ⟨_, h5, ⟨0, rfl⟩, ?_, ((channels_follow_lifecycle h5).1.started ⟨0, rfl⟩ ?_).2⟩
  all_goals
    rintro ⟨c, x, hx, hop⟩
    cases c with
    | zero =>
      cases hx
      cases hop
    | succ c => cases hx

end TonicSink

end ServiceLib
