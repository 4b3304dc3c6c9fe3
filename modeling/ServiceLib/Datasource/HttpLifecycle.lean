import ServiceLib.Runtime.Error
import ServiceLib.Transition

/-!
# Stopping the HTTP source

Follows `serve_http` and the lifecycle of `AxumDataSource` in `src/datasource/http/axum.rs`. A request
first looks whether the request tracker is closed and then registers its handler with it; a handler
whose client is gone goes on as a task of its own, and stays registered. `stop` closes the tracker,
joins the server of a dedicated listener, and waits until the tracker is closed and empty.

**Theorem (`stop_drains_requests`).** When a `stop` whose context is not cancelled is about to return,
no accepted request is running or has yet to run, in every run whose steps are `Calm`: when a `stop`
sees the tracker closed and empty, no request stands between its two steps; and no `start` opens
the tracker again before such a `stop` has returned.

The check and the registration are not one step, and the tracker accepts registrations after it has
been closed. So a request that has passed the check runs after `stop` has returned, if the tracker is
empty at that moment (`request_overtaken_by_stop`).

The tracker behaves as `tokio_util` documents it: a wait is over once the tracker has been closed and
empty since it began. The server of a dedicated listener ends without an error only when it has been
told to and no request is left on its connections.
-/

namespace ServiceLib

namespace HttpSource

/-! ## Data -/

inductive RequestPc
  /-- About to look at the tracker. -/
  | checking
  /-- Accepted; about to register with the tracker. -/
  | admitted
  /-- Registered: the handler runs, on the transport's task or, `detached`, on one of its own. -/
  | serving (detached : Bool)
  /-- Answered with 503. -/
  | refused
  | done
  /-- The client was gone before the first poll. -/
  | dropped
  deriving DecidableEq

/-- A request; `server` is the dedicated server that it came through, if it did. -/
structure Request where
  server : Option ℕ
  pc : RequestPc

/-- The part of `HttpDataConnectorConfig` that `start` reads. -/
structure ConnectorConfig where
  useDedicatedListener : Bool

inductive RuntimeDataConnectorConfig
  | http (config : ConnectorConfig)
  | other

inductive StartPc
  | configuring
  | reopening (dedicated : Bool)
  | binding
  /-- About to store a new shutdown token and to spawn the server. -/
  | spawning
  /-- About to store the handle of the server. -/
  | storing (server : ℕ)
  | returned (result : RuntimeResult Unit)
  | dropped

inductive StopPc
  /-- About to close the tracker. -/
  | closing
  /-- About to cancel the shutdown token. -/
  | signalling
  /-- In `select!`, about to lock `server_task`. -/
  | locking
  /-- In `select!`, joining a server, with the lock held. -/
  | joining (server : ℕ)
  /-- In `select!`; the tracker has been closed and empty since the wait began. -/
  | waiting (ready : Bool)
  /-- About to reset `started` and to return `Ok`, after draining or because of the context. -/
  | finishing (drained : Bool)
  | returned (result : RuntimeResult Unit)
  | dropped
  deriving DecidableEq

structure Stop where
  context : ℕ
  pc : StopPc

/-- A spawned server: the token that shuts it down, and how it has ended. -/
structure Server where
  token : ℕ
  ended : Option (Except String Unit)

structure State where
  started : Bool
  /-- The tracker: is it closed, and which requests are registered? -/
  closed : Bool
  tracked : List ℕ
  nextRequest : ℕ
  requests : ℕ → Option Request
  /-- The current shutdown token; tokens are numbered, and the last one is `nextToken - 1`. -/
  shutdown : ℕ
  nextToken : ℕ
  shutDown : ℕ → Bool
  /-- `server_task`: the handle, and whether a `stop` holds the lock. -/
  serverTask : Option ℕ
  serverLocked : Bool
  nextServer : ℕ
  servers : ℕ → Option Server
  starts : ℕ → Option StartPc
  stops : ℕ → Option Stop
  cancelled : ℕ → Bool

/-- `AxumDataSource::new`. -/
def State.init : State where
  started := false
  closed := false
  tracked := []
  nextRequest := 0
  requests := fun _ => none
  shutdown := 0
  nextToken := 1
  shutDown := fun _ => false
  serverTask := none
  serverLocked := false
  nextServer := 0
  servers := fun _ => none
  starts := fun _ => none
  stops := fun _ => none
  cancelled := fun _ => false

namespace State

def setRequest (s : State) (i : ℕ) (r : Request) : State :=
  { s with requests := Function.update s.requests i (some r) }

def setStart (s : State) (i : ℕ) (pc : StartPc) : State :=
  { s with starts := Function.update s.starts i (some pc) }

def setStop (s : State) (j : ℕ) (x : Stop) : State :=
  { s with stops := Function.update s.stops j (some x) }

/-- The waiters of a tracker that is closed and empty are woken. -/
def notify (s : State) : State :=
  if s.closed && s.tracked.isEmpty then
    { s with stops := fun j => (s.stops j).map fun x =>
        match x.pc with
        | .waiting _ => { x with pc := .waiting true }
        | _ => x }
  else s

/-- The handler is over, and its token of the tracker is dropped. -/
def release (s : State) (i : ℕ) (r : Request) : State :=
  (State.setRequest { s with tracked := s.tracked.erase i } i { r with pc := .done }).notify

/-- The drain goes on with the wait for the tracker. -/
def beginWait (s : State) (j : ℕ) (x : Stop) : State :=
  s.setStop j { x with pc := .waiting (s.closed && s.tracked.isEmpty) }

end State

/-- The request is on the connection that it came through. -/
def Request.onTransport (r : Request) : Bool :=
  match r.pc with
  | .checking | .admitted | .serving false => true
  | _ => false

/-- Requests come through a server until it has ended, and through other routers at any time. -/
def alive (s : State) : Option ℕ → Bool
  | none => true
  | some server => (s.servers server).any fun x => x.ended.isNone

/-- No request is on a connection of the server. -/
def idle (s : State) (server : ℕ) : Bool :=
  (List.range s.nextRequest).all fun i =>
    match s.requests i with
    | some r => !(decide (r.server = some server) && r.onTransport)
    | none => true

/-- `connector_config`, where the configuration has `connector` under the id of the source. -/
def connectorConfig (id : ℤ) (name : String) (debug : String → String)
    (connector : Option RuntimeDataConnectorConfig) : RuntimeResult ConnectorConfig :=
  match connector with
  | none => .error (.invalidConfiguration s!"HTTP data connector {id} is not configured")
  | some (.http config) => .ok config
  | some .other =>
    .error (.invalidConfiguration ("data connector " ++ debug name ++ " is not HTTP"))

/-! ## The system -/

inductive Action
  /-- A request comes in, through a server or through a router that was handed out. -/
  | arrive (server : Option ℕ)
  | check (i : ℕ)
  | track (i : ℕ)
  /-- The client is gone, and the transport drops the request. -/
  | disconnect (i : ℕ)
  /-- The handler completes, or panics. -/
  | finish (i : ℕ)
  | start (i : ℕ)
  | configure (i : ℕ) (connector : Option RuntimeDataConnectorConfig)
  | reopen (i : ℕ)
  | bind (i : ℕ) (result : Except String Unit)
  | spawn (i : ℕ)
  | store (i : ℕ)
  | dropStart (i : ℕ)
  | serverEnds (server : ℕ) (result : Except String Unit)
  | stop (j context : ℕ)
  | close (j : ℕ)
  | signal (j : ℕ)
  | lock (j : ℕ)
  | join (j : ℕ)
  | waited (j : ℕ)
  | stopCancelled (j : ℕ)
  | returnOk (j : ℕ)
  | dropStop (j : ℕ)
  | cancel (context : ℕ)

/-- The source: its id and name, and the debug format of a string. -/
structure Source where
  id : ℤ
  name : String
  debug : String → String

/-- Steps of requests. -/
def stepRequest (s : State) (i : ℕ) (r : Request) : Action → Option State
  | .check _ =>
    match r.pc with
    | .checking => some (s.setRequest i { r with pc := if s.closed then .refused else .admitted })
    | _ => none
  | .track _ =>
    match r.pc with
    | .admitted =>
      some (State.setRequest { s with tracked := i :: s.tracked } i { r with pc := .serving false })
    | _ => none
  | .disconnect _ =>
    match r.pc with
    | .checking => some (s.setRequest i { r with pc := .dropped })
    | .serving false => some (s.setRequest i { r with pc := .serving true })
    | _ => none
  | .finish _ =>
    match r.pc with
    | .serving _ => some (s.release i r)
    | _ => none
  | _ => none

/-- Steps of `start`. -/
def stepStart (source : Source) (s : State) (i : ℕ) (pc : StartPc) : Action → Option State
  | .configure _ connector =>
    match pc with
    | .configuring =>
      match connectorConfig source.id source.name source.debug connector with
      | .error error => some (s.setStart i (.returned (.error error)))
      | .ok config => some (s.setStart i (.reopening config.useDedicatedListener))
    | _ => none
  | .reopen _ =>
    match pc with
    | .reopening dedicated =>
      some (State.setStart { s with closed := false } i
        (if dedicated then .binding else .returned (.ok ())))
    | _ => none
  | .bind _ result =>
    match pc with
    | .binding =>
      match result with
      | .ok () => some (s.setStart i .spawning)
      | .error error =>
        some (State.setStart { s with started := false } i (.returned (.error (.transport error))))
    | _ => none
  | .spawn _ =>
    match pc with
    | .spawning =>
      some (State.setStart { s with
        shutdown := s.nextToken
        nextToken := s.nextToken + 1
        nextServer := s.nextServer + 1
        servers := Function.update s.servers s.nextServer (some ⟨s.nextToken, none⟩) } i
        (.storing s.nextServer))
    | _ => none
  | .store _ =>
    match pc with
    | .storing server =>
      if s.serverLocked then none
      else some (State.setStart { s with serverTask := some server } i (.returned (.ok ())))
    | _ => none
  | .dropStart _ =>
    match pc with
    | .binding | .storing _ => some (s.setStart i .dropped)
    | _ => none
  | _ => none

/-- Steps of `stop`. -/
def stepStop (s : State) (j : ℕ) (x : Stop) : Action → Option State
  | .close _ =>
    match x.pc with
    | .closing => some (State.notify (State.setStop { s with closed := true } j
        { x with pc := .signalling }))
    | _ => none
  | .signal _ =>
    match x.pc with
    | .signalling =>
      some (State.setStop { s with shutDown := Function.update s.shutDown s.shutdown true } j
        { x with pc := .locking })
    | _ => none
  | .lock _ =>
    match x.pc with
    | .locking =>
      if s.serverLocked then none
      else
        match s.serverTask with
        | none => some (s.beginWait j x)
        | some server =>
          some (State.setStop { s with serverTask := none, serverLocked := true } j
            { x with pc := .joining server })
    | _ => none
  | .join _ =>
    match x.pc with
    | .joining server =>
      match (s.servers server).bind Server.ended with
      | none => none
      | some (.ok ()) => some (State.beginWait { s with serverLocked := false } j x)
      | some (.error error) =>
        some (State.setStop { s with serverLocked := false } j
          { x with pc := .returned (.error (.transport error)) })
    | _ => none
  | .waited _ =>
    match x.pc with
    | .waiting true => some (s.setStop j { x with pc := .finishing true })
    | _ => none
  | .stopCancelled _ =>
    if s.cancelled x.context then
      match x.pc with
      | .locking | .waiting _ => some (s.setStop j { x with pc := .finishing false })
      | .joining _ =>
        some (State.setStop { s with serverLocked := false } j { x with pc := .finishing false })
      | _ => none
    else none
  | .returnOk _ =>
    match x.pc with
    | .finishing _ =>
      some (State.setStop { s with started := false } j { x with pc := .returned (.ok ()) })
    | _ => none
  | .dropStop _ =>
    match x.pc with
    | .locking | .waiting _ => some (s.setStop j { x with pc := .dropped })
    | .joining _ =>
      some (State.setStop { s with serverLocked := false } j { x with pc := .dropped })
    | _ => none
  | _ => none

def step (source : Source) (s : State) (a : Action) : Option State :=
  match a with
  | .arrive server =>
    if alive s server then
      some (State.setRequest { s with nextRequest := s.nextRequest + 1 } s.nextRequest
        ⟨server, .checking⟩)
    else none
  | .check i | .track i | .disconnect i | .finish i =>
    (s.requests i).bind fun r => stepRequest s i r a
  | .start i =>
    match s.starts i with
    | some _ => none
    | none =>
      if s.started then
        some (s.setStart i (.returned (.error (.resourceAlreadyStarted source.name))))
      else some (State.setStart { s with started := true } i .configuring)
  | .configure i _ | .reopen i | .bind i _ | .spawn i | .store i | .dropStart i =>
    (s.starts i).bind fun pc => stepStart source s i pc a
  | .serverEnds k result =>
    match s.servers k with
    | none => none
    | some x =>
      if x.ended.isSome then none
      else if result.toBool && !(s.shutDown x.token && idle s k) then none
      else some { s with servers := Function.update s.servers k (some { x with ended := some result }) }
  | .stop j context =>
    match s.stops j with
    | some _ => none
    | none => some (s.setStop j ⟨context, .closing⟩)
  | .close j | .signal j | .lock j | .join j | .waited j | .stopCancelled j | .returnOk j
  | .dropStop j =>
    (s.stops j).bind fun x => stepStop s j x a
  | .cancel context => some { s with cancelled := Function.update s.cancelled context true }

def system (source : Source) : System State Action where
  init := .init
  step := step source

/-! ## The property and the condition -/

/-- The request has passed the check, and its handler is not over. -/
def RequestPc.Accepted : RequestPc → Prop
  | .admitted | .serving _ => True
  | _ => False

/-- The call has seen the tracker closed and empty, and has not returned. -/
def Stop.Ready (x : Stop) : Prop := x.pc = .waiting true ∨ x.pc = .finishing true

/-- A `stop` that is about to return `Ok`, and whose context is not cancelled, leaves no accepted
request behind. -/
def Drained (s : State) : Prop :=
  ∀ j x drained, s.stops j = some x → x.pc = .finishing drained → s.cancelled x.context = false →
    ∀ i r, s.requests i = some r → ¬ r.pc.Accepted

/-- When a `stop` sees the tracker closed and empty, no request stands between its check and its
registration; and the tracker is not opened again before that `stop` has returned. A `stop` whose
context is cancelled does not count. -/
def Calm (source : Source) (s : State) (a : Action) : Prop :=
  (∀ t j x, step source s a = some t → t.stops j = some x → x.Ready →
    (∀ y, s.stops j = some y → ¬ y.Ready) → t.cancelled x.context = false →
    ∀ i r, t.requests i = some r → r.pc ≠ .admitted) ∧
  ∀ i, a = .reopen i → ∀ j x, s.stops j = some x → x.Ready → s.cancelled x.context = true

/-- The tracker has the requests that are being served, in every run. -/
structure Tracks (s : State) : Prop where
  nodup : s.tracked.Nodup
  tracked : ∀ i, i ∈ s.tracked ↔ ∃ r detached, s.requests i = some r ∧ r.pc = .serving detached
  fresh : ∀ i, s.nextRequest ≤ i → s.requests i = none

/-- A `stop` that returns without draining has a cancelled context, in every run. -/
def Excused (s : State) : Prop :=
  ∀ j x, s.stops j = some x → x.pc = .finishing false → s.cancelled x.context = true

/-- What holds in calm runs. -/
def Settled (s : State) : Prop :=
  ∀ j x, s.stops j = some x → x.Ready → s.cancelled x.context = false →
    s.closed = true ∧ ∀ i r, s.requests i = some r → ¬ r.pc.Accepted

/-! ## What a step does -/

/-- The requests, the tracker's registrations and the contexts are the same. -/
structure Frame (s t : State) : Prop where
  requests : t.requests = s.requests
  tracked : t.tracked = s.tracked
  nextRequest : t.nextRequest = s.nextRequest
  cancelled : t.cancelled = s.cancelled

inductive Effect (s : State) : Action → State → Prop
  | arrive (server : Option ℕ) : Effect s (.arrive server)
      (State.setRequest { s with nextRequest := s.nextRequest + 1 } s.nextRequest
        ⟨server, .checking⟩)
  /-- A request moves without a registration. -/
  | request {a : Action} {i : ℕ} {r : Request} (pc : RequestPc) (h : s.requests i = some r)
      (haccepted : pc.Accepted → r.pc.Accepted ∨ s.closed = false)
      (hserving : (∃ b, pc = .serving b) ↔ ∃ b, r.pc = .serving b) :
      Effect s a (s.setRequest i { r with pc := pc })
  | track {a : Action} {i : ℕ} {r : Request} (h : s.requests i = some r) (hpc : r.pc = .admitted) :
      Effect s a
        (State.setRequest { s with tracked := i :: s.tracked } i { r with pc := .serving false })
  | release {a : Action} {i : ℕ} {r : Request} (detached : Bool) (h : s.requests i = some r)
      (hpc : r.pc = .serving detached) : Effect s a (s.release i r)
  /-- A `stop` moves on; it is ready only when the tracker is closed and empty. -/
  | stop {a : Action} {t : State} {j : ℕ} (y : Stop) (hframe : Frame s t)
      (hclosed : t.closed = s.closed) (hstops : t.stops = Function.update s.stops j (some y))
      (hcontext : ∀ x, s.stops j = some x → x.context = y.context)
      (hready : y.Ready → (∃ x, s.stops j = some x ∧ x.Ready ∧ x.context = y.context) ∨
        (s.closed = true ∧ s.tracked = []))
      (hfinish : y.pc = .finishing false → s.cancelled y.context = true) : Effect s a t
  | close {a : Action} {j : ℕ} {x : Stop} (h : s.stops j = some x) : Effect s a
      (State.notify (State.setStop { s with closed := true } j { x with pc := .signalling }))
  | reopen {t : State} (i : ℕ) (hframe : Frame s t) (hclosed : t.closed = false)
      (hstops : t.stops = s.stops) : Effect s (.reopen i) t
  | other {a : Action} {t : State} (hframe : Frame s t) (hclosed : t.closed = s.closed)
      (hstops : t.stops = s.stops) : Effect s a t
  | cancel (context : ℕ) : Effect s (.cancel context)
      { s with cancelled := Function.update s.cancelled context true }

section Steps

variable {source : Source} {s t : State} {a : Action}

theorem stepRequest_effect {i : ℕ} {r : Request} (hr : s.requests i = some r)
    (h : stepRequest s i r a = some t) : Effect s a t := by
  cases a with
  | check _ =>
    simp only [stepRequest] at h
    split at h <;> cases h
    rename_i hpc
    by_cases hc : s.closed = true
    · rw [if_pos hc]
      exact .request _ hr nofun (by simp [hpc])
    · rw [if_neg hc]
      exact .request _ hr (fun _ => .inr (Bool.eq_false_iff.mpr hc)) (by simp [hpc])
  | track _ =>
    simp only [stepRequest] at h
    split at h <;> cases h
    exact .track hr ‹_›
  | disconnect _ =>
    simp only [stepRequest] at h
    split at h <;> cases h
    · rename_i hpc
      exact .request _ hr nofun (by simp [hpc])
    · rename_i hpc
      exact .request _ hr (fun _ => .inl (by rw [hpc]; trivial)) (by simp [hpc])
  | finish _ =>
    simp only [stepRequest] at h
    split at h <;> cases h
    exact .release _ hr ‹_›
  | _ => cases h

theorem stepStart_effect {i : ℕ} {pc : StartPc} (h : stepStart source s i pc a = some t) :
    Effect s a t := by
  cases a with
  | configure _ connector =>
    simp only [stepStart] at h
    split at h
    · split at h <;> cases h <;> exact .other ⟨rfl, rfl, rfl, rfl⟩ rfl rfl
    · cases h
  | reopen k =>
    simp only [stepStart] at h
    split at h <;> cases h
    exact .reopen k ⟨rfl, rfl, rfl, rfl⟩ rfl rfl
  | bind _ result =>
    simp only [stepStart] at h
    split at h
    · split at h <;> cases h <;> exact .other ⟨rfl, rfl, rfl, rfl⟩ rfl rfl
    · cases h
  | spawn _ =>
    simp only [stepStart] at h
    split at h <;> cases h
    exact .other ⟨rfl, rfl, rfl, rfl⟩ rfl rfl
  | store _ =>
    simp only [stepStart] at h
    split at h
    · split_ifs at h
      cases h
      exact .other ⟨rfl, rfl, rfl, rfl⟩ rfl rfl
    · cases h
  | dropStart _ =>
    simp only [stepStart] at h
    split at h <;> cases h <;> exact .other ⟨rfl, rfl, rfl, rfl⟩ rfl rfl
  | _ => cases h

theorem context_of_known {j : ℕ} (x : Stop) (hx : s.stops j = some x) (y : Stop)
    (hy : s.stops j = some y) : y.context = x.context := by
  rw [hx, Option.some.injEq] at hy
  rw [hy]

/-- A `stop` that begins to wait is ready if the tracker is closed and empty. -/
theorem beginWait_effect {j : ℕ} {x : Stop} {t : State} (hx : s.stops j = some x)
    (hframe : Frame s t) (hclosed : t.closed = s.closed) (hstops : t.stops = s.stops) :
    Effect s a (t.beginWait j x) := by
  refine .stop (j := j) { x with pc := .waiting (t.closed && t.tracked.isEmpty) }
    ⟨hframe.requests, hframe.tracked, hframe.nextRequest, hframe.cancelled⟩ hclosed ?_
    (context_of_known x hx) ?_ nofun
  · rw [← hstops]
    rfl
  · rintro (hr | hr)
    · have hb : (t.closed && t.tracked.isEmpty) = true := by simpa using hr
      rw [Bool.and_eq_true, hclosed, hframe.tracked, List.isEmpty_iff] at hb
      exact .inr hb
    · cases hr

theorem stepStop_effect {j : ℕ} {x : Stop} (hx : s.stops j = some x)
    (h : stepStop s j x a = some t) : Effect s a t := by
  cases a with
  | close _ =>
    simp only [stepStop] at h
    split at h <;> cases h
    exact .close hx
  | signal _ =>
    simp only [stepStop] at h
    split at h <;> cases h
    exact .stop _ ⟨rfl, rfl, rfl, rfl⟩ rfl rfl (context_of_known x hx)
      (by rintro (hr | hr) <;> cases hr) nofun
  | lock _ =>
    simp only [stepStop] at h
    split at h
    · split_ifs at h
      split at h <;> cases h
      · exact beginWait_effect hx ⟨rfl, rfl, rfl, rfl⟩ rfl rfl
      · exact .stop _ ⟨rfl, rfl, rfl, rfl⟩ rfl rfl (context_of_known x hx)
          (by rintro (hr | hr) <;> cases hr) nofun
    · cases h
  | join _ =>
    simp only [stepStop] at h
    split at h
    · split at h <;> cases h
      · exact beginWait_effect hx ⟨rfl, rfl, rfl, rfl⟩ rfl rfl
      · exact .stop _ ⟨rfl, rfl, rfl, rfl⟩ rfl rfl (context_of_known x hx)
          (by rintro (hr | hr) <;> cases hr) nofun
    · cases h
  | waited _ =>
    simp only [stepStop] at h
    split at h <;> cases h
    rename_i hpc
    exact .stop _ ⟨rfl, rfl, rfl, rfl⟩ rfl rfl (context_of_known x hx)
      (fun _ => .inl ⟨x, hx, .inl hpc, rfl⟩) nofun
  | stopCancelled _ =>
    simp only [stepStop] at h
    split_ifs at h with hc
    split at h <;> cases h <;>
      exact .stop _ ⟨rfl, rfl, rfl, rfl⟩ rfl rfl (context_of_known x hx)
        (by rintro (hr | hr) <;> cases hr) fun _ => hc
  | returnOk _ =>
    simp only [stepStop] at h
    split at h <;> cases h
    exact .stop _ ⟨rfl, rfl, rfl, rfl⟩ rfl rfl (context_of_known x hx)
      (by rintro (hr | hr) <;> cases hr) nofun
  | dropStop _ =>
    simp only [stepStop] at h
    split at h <;> cases h <;>
      exact .stop _ ⟨rfl, rfl, rfl, rfl⟩ rfl rfl (context_of_known x hx)
        (by rintro (hr | hr) <;> cases hr) nofun
  | _ => cases h

theorem step_effect (h : step source s a = some t) : Effect s a t := by
  cases a with
  | arrive server =>
    simp only [step] at h
    split_ifs at h
    cases h
    exact .arrive server
  | check i | track i | disconnect i | finish i =>
    obtain ⟨r, hr, h⟩ := Option.bind_eq_some_iff.mp h
    exact stepRequest_effect hr h
  | start i =>
    simp only [step] at h
    split at h
    · cases h
    · split_ifs at h <;> cases h <;> exact .other ⟨rfl, rfl, rfl, rfl⟩ rfl rfl
  | configure i _ | reopen i | bind i _ | spawn i | store i | dropStart i =>
    obtain ⟨pc, -, h⟩ := Option.bind_eq_some_iff.mp h
    exact stepStart_effect h
  | serverEnds k result =>
    simp only [step] at h
    split at h
    · cases h
    · split_ifs at h
      cases h
      exact .other ⟨rfl, rfl, rfl, rfl⟩ rfl rfl
  | stop j context =>
    simp only [step] at h
    split at h <;> cases h
    rename_i hj
    refine .stop _ ⟨rfl, rfl, rfl, rfl⟩ rfl rfl (fun x hx => ?_)
      (by rintro (hr | hr) <;> cases hr) nofun
    rw [hj] at hx
    cases hx
  | close j | signal j | lock j | join j | waited j | stopCancelled j | returnOk j | dropStop j =>
    obtain ⟨x, hx, h⟩ := Option.bind_eq_some_iff.mp h
    exact stepStop_effect hx h
  | cancel context =>
    cases h
    exact .cancel context

end Steps

/-! ## Consequences of a step -/

section Consequences

variable {source : Source} {s t : State} {a : Action} {i j : ℕ} {r : Request} {x y : Stop}

theorem notify_frame (s : State) : Frame s s.notify ∧ s.notify.closed = s.closed := by
  unfold State.notify
  split_ifs <;> exact ⟨⟨rfl, rfl, rfl, rfl⟩, rfl⟩

/-- A `stop` is as it was, or has been woken. -/
theorem notify_stops (h : s.notify.stops j = some y) :
    ∃ x, s.stops j = some x ∧ x.context = y.context ∧
      (y.pc = x.pc ∨ (y.pc = .waiting true ∧ s.closed = true ∧ s.tracked = [])) := by
  unfold State.notify at h
  split_ifs at h with hc
  · obtain ⟨x, hx, rfl⟩ := Option.map_eq_some_iff.mp h
    rw [Bool.and_eq_true, List.isEmpty_iff] at hc
    refine ⟨x, hx, ?_⟩
    split
    · exact ⟨rfl, .inr ⟨rfl, hc⟩⟩
    · exact ⟨rfl, .inl rfl⟩
  · exact ⟨y, h, rfl, .inl rfl⟩

theorem ready_of_pc (h : y.pc = x.pc) (hr : y.Ready) : x.Ready := by
  unfold Stop.Ready at hr ⊢
  rwa [← h]

theorem setStop_cases {k : ℕ} (h : (s.setStop j x).stops k = some y) :
    (k = j ∧ y = x) ∨ (k ≠ j ∧ s.stops k = some y) := by
  by_cases hk : k = j
  · subst hk
    rw [show (s.setStop k x).stops k = some x from Function.update_self ..] at h
    exact .inl ⟨rfl, (Option.some.inj h).symm⟩
  · rw [show (s.setStop j x).stops k = s.stops k from Function.update_of_ne hk ..] at h
    exact .inr ⟨hk, h⟩

theorem setRequest_cases {k : ℕ} {q : Request} (h : (s.setRequest i r).requests k = some q) :
    (k = i ∧ q = r) ∨ (k ≠ i ∧ s.requests k = some q) := by
  by_cases hk : k = i
  · subst hk
    rw [show (s.setRequest k r).requests k = some r from Function.update_self ..] at h
    exact .inl ⟨rfl, (Option.some.inj h).symm⟩
  · rw [show (s.setRequest i r).requests k = s.requests k from Function.update_of_ne hk ..] at h
    exact .inr ⟨hk, h⟩

/-- A `stop` is ready because it was, or because the tracker is closed and empty. -/
theorem Effect.ready (h : Effect s a t) (hy : t.stops j = some y) (hr : y.Ready) :
    (∃ x, s.stops j = some x ∧ x.Ready ∧ x.context = y.context) ∨
      (t.closed = true ∧ t.tracked = []) := by
  cases h with
  | arrive | request | track | cancel => exact .inl ⟨y, hy, hr, rfl⟩
  | release detached hreq hpc =>
    obtain ⟨x, hx, hcontext, hpc | ⟨-, hclosed, htracked⟩⟩ := notify_stops hy
    · exact .inl ⟨x, hx, ready_of_pc hpc hr, hcontext⟩
    · rw [State.release, (notify_frame _).2, (notify_frame _).1.tracked]
      exact .inr ⟨hclosed, htracked⟩
  | @stop _ _ k z hframe hclosed hstops hcontext hready hfinish =>
    rw [hstops] at hy
    by_cases hjk : j = k
    · subst hjk
      rw [Function.update_self, Option.some.injEq] at hy
      subst hy
      rw [hclosed, hframe.tracked]
      exact hready hr
    · rw [Function.update_of_ne hjk] at hy
      exact .inl ⟨y, hy, hr, rfl⟩
  | @close _ k z hz =>
    obtain ⟨x, hx, hcontext, hpc | ⟨-, hclosed, htracked⟩⟩ := notify_stops hy
    · rcases setStop_cases hx with ⟨-, rfl⟩ | ⟨-, hx⟩
      · rcases ready_of_pc hpc hr with hr | hr <;> cases hr
      · exact .inl ⟨x, hx, ready_of_pc hpc hr, hcontext⟩
    · rw [(notify_frame _).2, (notify_frame _).1.tracked]
      exact .inr ⟨hclosed, htracked⟩
  | reopen _ hframe hclosed hstops =>
    rw [hstops] at hy
    exact .inl ⟨y, hy, hr, rfl⟩
  | other hframe hclosed hstops =>
    rw [hstops] at hy
    exact .inl ⟨y, hy, hr, rfl⟩

/-- A `stop` keeps its context. -/
theorem Effect.context (h : Effect s a t) (hx : s.stops j = some x) (hy : t.stops j = some y) :
    x.context = y.context := by
  cases h with
  | arrive | request | track | cancel => exact context_of_known _ hy x hx
  | release =>
    obtain ⟨z, hz, hcontext, -⟩ := notify_stops hy
    rw [← hcontext]
    exact context_of_known _ hz x hx
  | @stop _ _ k z hframe hclosed hstops hcontext hready hfinish =>
    rw [hstops] at hy
    by_cases hjk : j = k
    · subst hjk
      rw [Function.update_self, Option.some.injEq] at hy
      rw [← hy]
      exact hcontext x hx
    · rw [Function.update_of_ne hjk] at hy
      exact context_of_known _ hy x hx
  | close hz =>
    obtain ⟨w, hw, hcontext, -⟩ := notify_stops hy
    rw [← hcontext]
    rcases setStop_cases hw with ⟨rfl, rfl⟩ | ⟨-, hw⟩
    · exact context_of_known _ hz x hx
    · exact context_of_known _ hw x hx
  | reopen _ hframe hclosed hstops | other hframe hclosed hstops =>
    rw [hstops] at hy
    exact context_of_known _ hy x hx

/-- Contexts stay cancelled. -/
theorem Effect.uncancelled (h : Effect s a t) {c : ℕ} (hc : t.cancelled c = false) :
    s.cancelled c = false := by
  cases h with
  | arrive | request | track => exact hc
  | release detached hreq hpc =>
    rw [State.release, (notify_frame _).1.cancelled] at hc
    exact hc
  | stop y hframe => rwa [hframe.cancelled] at hc
  | close hx =>
    rw [(notify_frame _).1.cancelled] at hc
    exact hc
  | reopen _ hframe => rwa [hframe.cancelled] at hc
  | other hframe => rwa [hframe.cancelled] at hc
  | cancel context =>
    change Function.update s.cancelled context true c = false at hc
    by_cases hcc : c = context
    · rw [hcc, Function.update_self] at hc
      cases hc
    · rwa [Function.update_of_ne hcc] at hc

/-- Only `start` opens the tracker. -/
theorem Effect.closed (h : Effect s a t) (hc : s.closed = true) :
    t.closed = true ∨ ∃ i, a = .reopen i := by
  cases h with
  | arrive | request | track | cancel => exact .inl hc
  | release detached hreq hpc =>
    rw [State.release, (notify_frame _).2]
    exact .inl hc
  | stop y hframe hclosed => exact .inl (hclosed.trans hc)
  | close hx =>
    rw [(notify_frame _).2]
    exact .inl rfl
  | reopen i => exact .inr ⟨i, rfl⟩
  | other hframe hclosed => exact .inl (hclosed.trans hc)

/-- A request is accepted because it was, or because it has passed the check of an open tracker. -/
theorem Effect.accepted (h : Effect s a t) (hr : t.requests i = some r) (ha : r.pc.Accepted) :
    (∃ q, s.requests i = some q ∧ q.pc.Accepted) ∨ s.closed = false := by
  cases h with
  | arrive server =>
    rcases setRequest_cases hr with ⟨-, rfl⟩ | ⟨-, hr⟩
    · exact ha.elim
    · exact .inl ⟨r, hr, ha⟩
  | @request _ k q pc hq haccepted hserving =>
    rcases setRequest_cases hr with ⟨rfl, rfl⟩ | ⟨-, hr⟩
    · exact (haccepted ha).imp_left fun h => ⟨q, hq, h⟩
    · exact .inl ⟨r, hr, ha⟩
  | @track _ k q hq hpc =>
    rcases setRequest_cases hr with ⟨rfl, rfl⟩ | ⟨-, hr⟩
    · exact .inl ⟨q, hq, by rw [hpc]; trivial⟩
    · exact .inl ⟨r, hr, ha⟩
  | @release _ k q detached hq hpc =>
    rw [State.release, (notify_frame _).1.requests] at hr
    rcases setRequest_cases hr with ⟨rfl, rfl⟩ | ⟨-, hr⟩
    · exact ha.elim
    · exact .inl ⟨r, hr, ha⟩
  | stop y hframe =>
    rw [hframe.requests] at hr
    exact .inl ⟨r, hr, ha⟩
  | close hx =>
    rw [(notify_frame _).1.requests] at hr
    exact .inl ⟨r, hr, ha⟩
  | reopen _ hframe =>
    rw [hframe.requests] at hr
    exact .inl ⟨r, hr, ha⟩
  | other hframe =>
    rw [hframe.requests] at hr
    exact .inl ⟨r, hr, ha⟩
  | cancel context => exact .inl ⟨r, hr, ha⟩

end Consequences

/-! ## The invariants -/

section Invariants

variable {source : Source} {s t : State} {a : Action} {i j : ℕ} {r : Request} {x y : Stop}

theorem Tracks.frame (h : Tracks s) (hf : Frame s t) : Tracks t where
  nodup := hf.tracked ▸ h.nodup
  tracked i := by
    rw [hf.tracked, hf.requests]
    exact h.tracked i
  fresh i hi := by
    rw [hf.requests]
    exact h.fresh i (hf.nextRequest ▸ hi)

theorem requests_setRequest_self : (s.setRequest i r).requests i = some r :=
  Function.update_self ..

theorem requests_setRequest_of_ne {k : ℕ} (h : k ≠ i) :
    (s.setRequest i r).requests k = s.requests k :=
  Function.update_of_ne h ..

/-- A request below the counter changes, and with it the registrations. -/
theorem Tracks.setRequest (h : Tracks s) {tracked : List ℕ} {q : Request}
    (hq : s.requests i = some q) (hnodup : tracked.Nodup)
    (hself : i ∈ tracked ↔ ∃ b, r.pc = .serving b)
    (hother : ∀ k, k ≠ i → (k ∈ tracked ↔ k ∈ s.tracked)) :
    Tracks (State.setRequest { s with tracked := tracked } i r) where
  nodup := hnodup
  tracked k := by
    by_cases hk : k = i
    · subst hk
      rw [requests_setRequest_self]
      refine hself.trans ⟨?_, ?_⟩
      · rintro ⟨b, hb⟩
        exact ⟨r, b, rfl, hb⟩
      · rintro ⟨_, b, ⟨⟩, hb⟩
        exact ⟨b, hb⟩
    · rw [requests_setRequest_of_ne hk]
      exact (hother k hk).trans (h.tracked k)
  fresh k hk := by
    rw [requests_setRequest_of_ne]
    · exact h.fresh k hk
    · rintro rfl
      rw [h.fresh k hk] at hq
      cases hq

theorem Tracks.not_mem (h : Tracks s) (hr : s.requests i = some r) (hpc : ∀ b, r.pc ≠ .serving b) :
    i ∉ s.tracked := by
  intro hmem
  obtain ⟨q, b, hq, hb⟩ := (h.tracked i).mp hmem
  rw [hr, Option.some.injEq] at hq
  subst hq
  exact hpc b hb

theorem Tracks.next (h : Tracks s) (he : Effect s a t) : Tracks t := by
  cases he with
  | arrive server =>
    refine ⟨h.nodup, fun k => ?_, fun k hk => ?_⟩
    · by_cases hkn : k = s.nextRequest
      · subst hkn
        rw [requests_setRequest_self]
        refine iff_of_false (fun hmem => ?_) (by rintro ⟨_, b, ⟨⟩, hb⟩; cases hb)
        obtain ⟨q, b, hq, -⟩ := (h.tracked _).mp hmem
        rw [h.fresh _ le_rfl] at hq
        cases hq
      · rw [requests_setRequest_of_ne hkn]
        exact h.tracked k
    · have hlt : s.nextRequest < k := hk
      rw [requests_setRequest_of_ne hlt.ne']
      exact h.fresh k hlt.le
  | @request _ i q pc hq haccepted hserving =>
    refine h.setRequest hq h.nodup ?_ fun _ _ => Iff.rfl
    rw [h.tracked, hserving]
    constructor
    · rintro ⟨q', b, hq', hb⟩
      rw [hq, Option.some.injEq] at hq'
      exact ⟨b, hq' ▸ hb⟩
    · rintro ⟨b, hb⟩
      exact ⟨q, b, hq, hb⟩
  | @track _ i q hq hpc =>
    have hnot : i ∉ s.tracked := h.not_mem hq (by rw [hpc]; exact nofun)
    refine h.setRequest hq (List.nodup_cons.mpr ⟨hnot, h.nodup⟩)
      (iff_of_true List.mem_cons_self ⟨false, rfl⟩) fun k hk => ?_
    rw [List.mem_cons]
    exact or_iff_right hk
  | @release _ i q detached hq hpc =>
    refine Tracks.frame ?_ (notify_frame _).1
    refine h.setRequest hq (h.nodup.erase i)
      (iff_of_false (fun hmem => ?_) (by rintro ⟨b, hb⟩; cases hb)) fun k hk => ?_
    · exact (h.nodup.mem_erase_iff.mp hmem).1 rfl
    · rw [h.nodup.mem_erase_iff]
      exact and_iff_right hk
  | stop y hframe => exact h.frame hframe
  | @close _ j x hx =>
    have hclosed : Tracks (State.setStop { s with closed := true } j { x with pc := .signalling }) :=
      h.frame ⟨rfl, rfl, rfl, rfl⟩
    exact hclosed.frame (notify_frame _).1
  | reopen _ hframe => exact h.frame hframe
  | other hframe => exact h.frame hframe
  | cancel context => exact ⟨h.nodup, h.tracked, h.fresh⟩

/-- A woken `stop` is not excused, and needs no excuse. -/
theorem Excused.notify (h : Excused s) : Excused s.notify := by
  intro j y hy hpc
  obtain ⟨x, hx, hcontext, hsame | ⟨hwait, -⟩⟩ := notify_stops hy
  · rw [(notify_frame s).1.cancelled, ← hcontext]
    exact h j x hx (hsame ▸ hpc)
  · rw [hwait] at hpc
    cases hpc

theorem Excused.next (h : Excused s) (he : Effect s a t) : Excused t := by
  cases he with
  | arrive | request | track => exact h
  | release => exact Excused.notify h
  | @stop _ _ k y hframe _ hstops _ _ hfinish =>
    intro j z hz hpc
    rw [hframe.cancelled]
    rw [hstops] at hz
    by_cases hjk : j = k
    · rw [hjk, Function.update_self, Option.some.injEq] at hz
      subst hz
      exact hfinish hpc
    · rw [Function.update_of_ne hjk] at hz
      exact h j z hz hpc
  | close hx =>
    refine Excused.notify fun j z hz hpc => ?_
    rcases setStop_cases hz with ⟨-, rfl⟩ | ⟨-, hz⟩
    · cases hpc
    · exact h j z hz hpc
  | reopen _ hframe _ hstops | other hframe _ hstops =>
    intro j z hz hpc
    rw [hframe.cancelled]
    exact h j z (hstops ▸ hz) hpc
  | cancel context =>
    intro j z hz hpc
    change Function.update s.cancelled context true z.context = true
    by_cases hc : z.context = context
    · rw [hc, Function.update_self]
    · rw [Function.update_of_ne hc]
      exact h j z hz hpc

/-- **What a calm step keeps.** A `stop` that becomes ready sees an empty tracker and, in a calm step,
no request on its way to it; from then on the closed tracker lets nobody pass. -/
theorem Settled.next (h : Settled s) (ht : Tracks t) (hcalm : Calm source s a)
    (hs : step source s a = some t) : Settled t := by
  intro j y hy hready hcancel
  have he := step_effect hs
  by_cases hold : ∃ x, s.stops j = some x ∧ x.Ready ∧ x.context = y.context
  · obtain ⟨x, hx, hxready, hcontext⟩ := hold
    have hxcancel := he.uncancelled (hcontext ▸ hcancel)
    obtain ⟨hclosed, hnone⟩ := h j x hx hxready hxcancel
    refine ⟨?_, fun i r hr hacc => ?_⟩
    · rcases he.closed hclosed with hclosed | ⟨i, rfl⟩
      · exact hclosed
      · rw [hcalm.2 i rfl j x hx hxready] at hxcancel
        cases hxcancel
    · rcases he.accepted hr hacc with ⟨q, hq, hqacc⟩ | hopen
      · exact hnone i q hq hqacc
      · rw [hclosed] at hopen
        cases hopen
  · rcases he.ready hy hready with hready' | ⟨hclosed, hempty⟩
    · exact absurd hready' hold
    refine ⟨hclosed, fun i r hr hacc => ?_⟩
    have hserving : ∀ b, r.pc ≠ .serving b := by
      intro b hb
      have hmem := (ht.tracked i).mpr ⟨r, b, hr, hb⟩
      rw [hempty] at hmem
      exact List.not_mem_nil hmem
    have hadmitted : r.pc ≠ .admitted := by
      refine hcalm.1 t j y hs hy hready (fun x hx hxready => ?_) hcancel i r hr
      exact hold ⟨x, hx, hxready, he.context hx hy⟩
    cases hpc : r.pc with
    | admitted => exact hadmitted hpc
    | serving b => exact hserving b hpc
    | checking | refused | done | dropped =>
      rw [hpc] at hacc
      exact hacc

end Invariants

/-! ## Main results -/

section Main

variable {source : Source} {s t : State} {a : Action} {i j : ℕ} {r : Request} {x : Stop}

theorem tracks_init : Tracks .init where
  nodup := List.nodup_nil
  tracked i := iff_of_false List.not_mem_nil (by rintro ⟨r, b, hr, -⟩; cases hr)
  fresh _ _ := rfl

theorem excused_init : Excused .init := by
  intro j x hx
  cases hx

theorem settled_init : Settled .init := by
  intro j x hx
  cases hx

theorem invariants (h : (system source).Reach (Calm source) s) :
    Tracks s ∧ Excused s ∧ Settled s := by
  refine h.invariant (I := fun s => Tracks s ∧ Excused s ∧ Settled s)
    ⟨tracks_init, excused_init, settled_init⟩ ?_
  rintro s a t ⟨htracks, hexcused, hsettled⟩ hcalm hs
  have htracks' := htracks.next (step_effect hs)
  exact ⟨htracks', hexcused.next (step_effect hs), hsettled.next htracks' hcalm hs⟩

theorem Settled.drained (h : Settled s) (he : Excused s) : Drained s := by
  intro j x drained hx hpc hcancel
  cases drained with
  | false =>
    rw [he j x hx hpc] at hcancel
    cases hcancel
  | true => exact (h j x hx (.inr hpc) hcancel).2

/-- A `stop` that is ready while a request is accepted may return at once. -/
theorem not_drained_of_ready (hx : s.stops j = some x) (hready : x.Ready)
    (hcancel : s.cancelled x.context = false) (hr : s.requests i = some r) (ha : r.pc.Accepted) :
    ∃ as u, (system source).run s as = some u ∧ ¬ Drained u := by
  rcases hready with hpc | hpc
  · have hs : (system source).step s (.waited j) =
        some (s.setStop j { x with pc := .finishing true }) := by
      show step source s (.waited j) = _
      simp only [step, hx, Option.bind_some, stepStop, hpc]
    refine ⟨_, _, System.run_singleton hs, fun hd => ?_⟩
    exact hd j { x with pc := .finishing true } true (Function.update_self ..) rfl hcancel i r hr ha
  · exact ⟨[], s, rfl, fun hd => hd j x true hx hpc hcancel i r hr ha⟩

/-- Once the tracker is open, a request may come in and pass the check. -/
theorem arrive_and_pass (source : Source) (hclosed : s.closed = false) :
    ∃ u, (system source).run s [.arrive none, .check s.nextRequest] = some u ∧
      u.stops = s.stops ∧ u.cancelled = s.cancelled ∧
      u.requests s.nextRequest = some ⟨none, .admitted⟩ := by
  have hrun : (system source).run s [.arrive none, .check s.nextRequest] =
      some (State.setRequest (State.setRequest { s with nextRequest := s.nextRequest + 1 }
        s.nextRequest ⟨none, .checking⟩) s.nextRequest ⟨none, .admitted⟩) := by
    simp only [System.run, system, step, alive, if_true, Option.bind_some, requests_setRequest_self,
      stepRequest]
    rw [if_neg]
    exact Bool.eq_false_iff.mp hclosed
  exact ⟨_, hrun, rfl, rfl, requests_setRequest_self⟩

theorem reopen_eq (h : step source s (.reopen i) = some t) :
    t.closed = false ∧ t.stops = s.stops ∧ t.cancelled = s.cancelled := by
  obtain ⟨pc, -, h⟩ := Option.bind_eq_some_iff.mp h
  simp only [stepStart] at h
  split at h <;> cases h
  exact ⟨rfl, rfl, rfl⟩

theorem not_drained_of_not_calm (hs : step source s a = some t) (hn : ¬ Calm source s a) :
    ∃ as u, (system source).run t as = some u ∧ ¬ Drained u := by
  rcases not_and_or.mp hn with hn | hn
  · -- A request has passed the check, but is not registered when the `stop` becomes ready.
    simp only [not_forall, not_not] at hn
    obtain ⟨t', j, x, ht', hx, hready, -, hcancel, i, r, hr, hpc⟩ := hn
    rw [hs, Option.some.injEq] at ht'
    subst ht'
    exact not_drained_of_ready hx hready hcancel hr (by rw [hpc]; trivial)
  · -- The tracker is open again before the `stop` has returned.
    simp only [not_forall] at hn
    obtain ⟨i, rfl, j, x, hx, hready, hcancel⟩ := hn
    obtain ⟨hclosed, hstops, hcancelled⟩ := reopen_eq hs
    obtain ⟨u, hu, hustops, hucancel, hur⟩ := arrive_and_pass source hclosed
    have hux : u.stops j = some x := by rw [hustops, hstops, hx]
    have huc : u.cancelled x.context = false := by
      rw [hucancel, hcancelled]
      exact Bool.eq_false_iff.mpr hcancel
    obtain ⟨as, v, hv, hd⟩ := not_drained_of_ready hux hready huc hur trivial
    exact ⟨_, v, System.run_trans hu hv, hd⟩

/-- **Stop drains.** In every calm run, when a `stop` whose context is not cancelled is about to
return `Ok`, no accepted request is being served and none has yet to be. A step that is not calm
leads to a state where this fails. -/
theorem stop_drains_requests (h : (system source).Reach (Calm source) s) :
    Drained s ∧ ∀ a t, step source s a = some t → ¬ Calm source s a →
      ∃ as u, (system source).run t as = some u ∧ ¬ Drained u := by
  obtain ⟨-, hexcused, hsettled⟩ := invariants h
  exact ⟨hsettled.drained hexcused, fun a t hs hn => not_drained_of_not_calm hs hn⟩

end Main

/-! ## Runs -/

def orders : Source := ⟨1, "orders", String.quote⟩

/-- The source is started on the router of the service. A request passes the check; then a `stop`
finds the tracker empty, and goes on to its last step. -/
def overtaken : List Action :=
  [.start 0, .configure 0 (some (.http ⟨false⟩)), .reopen 0, .arrive none, .check 0,
    .stop 0 0, .close 0, .signal 0, .lock 0, .waited 0]

theorem overtaken_runs : ((system orders).run .init overtaken).isSome := by
  decide +kernel

/-- The `stop` returns `Ok`, its context is not cancelled, and after that the request is served. -/
theorem request_overtaken_by_stop :
    ∃ s t, (system orders).Reachable s ∧ ¬ Drained s ∧
      (system orders).run s [.returnOk 0, .track 0] = some t ∧
      t.stops 0 = some ⟨0, .returned (.ok ())⟩ ∧ t.cancelled 0 = false ∧
      t.requests 0 = some ⟨none, .serving false⟩ := by
  refine ⟨_, _, System.reachable_get (S := system orders) overtaken_runs, fun hd => ?_, rfl, rfl, rfl,
    rfl⟩
  exact hd 0 ⟨0, .finishing true⟩ true rfl rfl rfl 0 ⟨none, .admitted⟩ rfl trivial

theorem calm_of_step {source : Source} {s t : State} {a : Action} (hs : step source s a = some t)
    (ha : ∀ i, a ≠ .reopen i)
    (h : t.stops = s.stops ∨ ∀ i r, t.requests i = some r → r.pc ≠ .admitted) :
    Calm source s a := by
  refine ⟨fun u j x hu hx hready hold _ i r hr => ?_, fun i hi => absurd hi (ha i)⟩
  rw [hs, Option.some.injEq] at hu
  subst hu
  rcases h with h | h
  · exact absurd hready (hold x (h ▸ hx))
  · exact h i r hr

theorem none_admitted_of_single {s : State} {q : Request} (h0 : s.requests 0 = some q)
    (h : ∀ i, s.requests (i + 1) = none) (hpc : q.pc ≠ .admitted) (i : ℕ) (r : Request)
    (hr : s.requests i = some r) : r.pc ≠ .admitted := by
  cases i with
  | zero =>
    rw [h0, Option.some.injEq] at hr
    exact hr ▸ hpc
  | succ i =>
    rw [h i] at hr
    cases hr

/-- A `stop` waits for a request whose client is gone. -/
theorem stop_drains_requests_disconnected :
    ∃ s, (system orders).Reach (Calm orders) s ∧ s.stops 0 = some ⟨0, .finishing true⟩ ∧
      s.requests 0 = some ⟨none, .done⟩ ∧ Drained s := by
  have h1 : (system orders).Reach (Calm orders) _ :=
    .step (a := .arrive none) .init (calm_of_step rfl nofun (.inl rfl)) rfl
  have h2 : (system orders).Reach (Calm orders) _ :=
    .step (a := .check 0) h1 (calm_of_step rfl nofun (.inl rfl)) rfl
  have h3 : (system orders).Reach (Calm orders) _ :=
    .step (a := .track 0) h2 (calm_of_step rfl nofun (.inl rfl)) rfl
  have h4 : (system orders).Reach (Calm orders) _ :=
    .step (a := .disconnect 0) h3 (calm_of_step rfl nofun (.inl rfl)) rfl
  have h5 : (system orders).Reach (Calm orders) _ :=
    .step (a := .stop 0 0) h4
      (calm_of_step rfl nofun (.inr (none_admitted_of_single rfl (fun _ => rfl) nofun))) rfl
  have h6 : (system orders).Reach (Calm orders) _ :=
    .step (a := .close 0) h5
      (calm_of_step rfl nofun (.inr (none_admitted_of_single rfl (fun _ => rfl) nofun))) rfl
  have h7 : (system orders).Reach (Calm orders) _ :=
    .step (a := .signal 0) h6
      (calm_of_step rfl nofun (.inr (none_admitted_of_single rfl (fun _ => rfl) nofun))) rfl
  have h8 : (system orders).Reach (Calm orders) _ :=
    .step (a := .lock 0) h7
      (calm_of_step rfl nofun (.inr (none_admitted_of_single rfl (fun _ => rfl) nofun))) rfl
  have h9 : (system orders).Reach (Calm orders) _ :=
    .step (a := .finish 0) h8
      (calm_of_step rfl nofun (.inr (none_admitted_of_single rfl (fun _ => rfl) nofun))) rfl
  have h10 : (system orders).Reach (Calm orders) _ :=
    .step (a := .waited 0) h9
      (calm_of_step rfl nofun (.inr (none_admitted_of_single rfl (fun _ => rfl) nofun))) rfl
  exact ⟨_, h10, rfl, rfl, (stop_drains_requests h10).1⟩

end HttpSource

end ServiceLib
