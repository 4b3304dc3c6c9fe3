import ServiceLib.HashMap

/-!
# Duration samples of gRPC calls

Follows `GrpcServerMetricsService::call`, `ObservedGrpcBody` and `GrpcCallObservation` in
`src/runtime/telemetry/mod.rs`. The observation of a call is made when the inner service has
answered. It moves into the body of the response, and is taken out by the first of: a status in the
headers, a trailers frame, an error, the end of the body, and the drop of the body.

**Theorem (`call_observed_once`).** A call that has ended left exactly one sample, under the status
of its outcome, if and only if its future was not dropped before the inner service answered and the
histogram of that status could be registered. A future that is dropped before leaves none
(`abandoned_unobserved`).

The idea: the body leaves the sample of its first event that has a status, and none after that
(`run_body`).
-/

namespace ServiceLib

namespace GrpcMetrics

/-! ## Statuses -/

def statusNames : List String :=
  ["OK", "CANCELLED", "UNKNOWN", "INVALID_ARGUMENT", "DEADLINE_EXCEEDED", "NOT_FOUND",
    "ALREADY_EXISTS", "PERMISSION_DENIED", "RESOURCE_EXHAUSTED", "FAILED_PRECONDITION", "ABORTED",
    "OUT_OF_RANGE", "UNIMPLEMENTED", "INTERNAL", "UNAVAILABLE", "DATA_LOSS", "UNAUTHENTICATED"]

def grpcStatusName (status : String) : String :=
  match status with
  | "0" => "OK"
  | "1" => "CANCELLED"
  | "2" => "UNKNOWN"
  | "3" => "INVALID_ARGUMENT"
  | "4" => "DEADLINE_EXCEEDED"
  | "5" => "NOT_FOUND"
  | "6" => "ALREADY_EXISTS"
  | "7" => "PERMISSION_DENIED"
  | "8" => "RESOURCE_EXHAUSTED"
  | "9" => "FAILED_PRECONDITION"
  | "10" => "ABORTED"
  | "11" => "OUT_OF_RANGE"
  | "12" => "UNIMPLEMENTED"
  | "13" => "INTERNAL"
  | "14" => "UNAVAILABLE"
  | "15" => "DATA_LOSS"
  | "16" => "UNAUTHENTICATED"
  | _ => (statusNames.find? fun candidate => candidate = status).getD "UNKNOWN"

/-- `tonic::Code`. -/
inductive Code
  | ok
  | cancelled
  | unknown
  | invalidArgument
  | deadlineExceeded
  | notFound
  | alreadyExists
  | permissionDenied
  | resourceExhausted
  | failedPrecondition
  | aborted
  | outOfRange
  | unimplemented
  | internal
  | unavailable
  | dataLoss
  | unauthenticated

def tonicCodeName : Code → String
  | .ok => "OK"
  | .cancelled => "CANCELLED"
  | .unknown => "UNKNOWN"
  | .invalidArgument => "INVALID_ARGUMENT"
  | .deadlineExceeded => "DEADLINE_EXCEEDED"
  | .notFound => "NOT_FOUND"
  | .alreadyExists => "ALREADY_EXISTS"
  | .permissionDenied => "PERMISSION_DENIED"
  | .resourceExhausted => "RESOURCE_EXHAUSTED"
  | .failedPrecondition => "FAILED_PRECONDITION"
  | .aborted => "ABORTED"
  | .outOfRange => "OUT_OF_RANGE"
  | .unimplemented => "UNIMPLEMENTED"
  | .internal => "INTERNAL"
  | .unavailable => "UNAVAILABLE"
  | .dataLoss => "DATA_LOSS"
  | .unauthenticated => "UNAUTHENTICATED"

theorem grpcStatusName_mem (status : String) : grpcStatusName status ∈ statusNames := by
  unfold grpcStatusName
  split
  case h_18 =>
    cases hfind : statusNames.find? fun candidate => candidate = status with
    | some name => exact List.mem_of_find?_eq_some hfind
    | none => decide
  all_goals decide

theorem grpcStatusName_of_mem {status : String} (h : status ∈ statusNames) :
    grpcStatusName status = status := by
  have hall : ∀ name ∈ statusNames, grpcStatusName name = name := by decide +kernel
  exact hall status h

theorem tonicCodeName_mem (code : Code) : tonicCodeName code ∈ statusNames := by
  cases code <;> decide

/-! ## Observations -/

/-- `GrpcMethodMetrics`. -/
structure MethodMetrics where
  method : String
  /-- Whether the histogram of a status could be registered. -/
  registered : String → Bool

structure Sample where
  method : String
  status : String
  duration : ℕ
  deriving DecidableEq

/-- The entry of a status in `durations`. -/
def MethodMetrics.duration (metrics : MethodMetrics) (status : String) : Option Bool :=
  if status ∈ statusNames then some (metrics.registered status) else none

def MethodMetrics.observe (metrics : MethodMetrics) (status : String) (duration : ℕ) :
    List Sample :=
  match metrics.duration status with
  | some true => [⟨metrics.method, status, duration⟩]
  | _ => []

structure GrpcServerMetrics where
  enabled : Bool
  methods : HashMap String MethodMetrics
  fallback : MethodMetrics

def GrpcServerMetrics.method (server : GrpcServerMetrics) (method : String) : MethodMetrics :=
  (server.methods.lookup method).getD server.fallback

/-- `GrpcCallObservation`. -/
structure Observation where
  metrics : Option MethodMetrics
  startedAt : Option ℕ

def Observation.finish (observation : Observation) (status : String) (now : ℕ) : List Sample :=
  match observation.metrics, observation.startedAt with
  | some metrics, some startedAt => metrics.observe (grpcStatusName status) (now - startedAt)
  | _, _ => []

/-! ## Calls -/

structure Request where
  path : String
  /-- The headers name a parent span. -/
  tracingParent : Bool
  /-- No subscriber wants the span. -/
  spanDisabled : Bool

/-- What a poll of the inner body gives. The status of trailers is there if it is text. -/
inductive BodyPoll
  | pending
  | data
  | trailers (status : Option String)
  | error (code : Code)
  | ended

/-- What happens to a call. -/
inductive Event
  /-- The inner service answers; the headers may have a status. -/
  | respond (status : Option String)
  /-- The inner service returns an error. -/
  | fail
  | poll (result : BodyPoll)
  /-- The future of the call, or the body of the response, is dropped. -/
  | drop

/-- Where a call stands. A call without an observation is the inner service's own. -/
inductive Phase
  | awaiting (observation : Option Observation)
  | body (observation : Option Observation)
  | ended

/-- `GrpcServerMetricsService::call`. -/
def call (server : GrpcServerMetrics) (tracingEnabled : Bool) (request : Request) (now : ℕ) :
    Phase :=
  let tracingParent := tracingEnabled && request.tracingParent
  if !server.enabled && !tracingParent then .awaiting none
  else
    let metrics :=
      if server.enabled then
        some (server.method (request.path.dropWhile fun c => c = '/').toString)
      else none
    let span := tracingParent && !request.spanDisabled
    let startedAt := if metrics.isSome || span then some now else none
    if metrics.isNone && !span then .awaiting none else .awaiting (some ⟨metrics, startedAt⟩)

/-- `finish` of the body: the observation is taken. -/
def finish (observation : Option Observation) (status : String) (now : ℕ) : List Sample :=
  match observation with
  | some observation => observation.finish status now
  | none => []

/-- `ObservedGrpcBody::poll_frame`: the samples, and the observation that is left. -/
def pollFrame (observation : Option Observation) (now : ℕ) :
    BodyPoll → List Sample × Option Observation
  | .pending | .data => ([], observation)
  | .trailers status => (finish observation (status.getD "OK") now, none)
  | .error code => (finish observation (tonicCodeName code) now, none)
  | .ended => (finish observation "OK" now, none)

/-- The samples of an event at a time. -/
def step : Phase → Event × ℕ → Option (List Sample × Phase)
  | .awaiting observation, (.respond (some status), now) =>
    some (finish observation (grpcStatusName status) now, .body none)
  | .awaiting observation, (.respond none, _) => some ([], .body observation)
  | .awaiting observation, (.fail, now) => some (finish observation "UNKNOWN" now, .ended)
  | .awaiting _, (.drop, _) => some ([], .ended)
  | .body observation, (.poll result, now) =>
    some ((pollFrame observation now result).1, .body (pollFrame observation now result).2)
  | .body observation, (.drop, now) => some (finish observation "CANCELLED" now, .ended)
  | _, _ => none

def run : Phase → List (Event × ℕ) → Option (List Sample × Phase)
  | phase, [] => some ([], phase)
  | phase, event :: events =>
    (step phase event).bind fun done =>
      (run done.2 events).map fun rest => (done.1 ++ rest.1, rest.2)

/-! ## Outcomes -/

/-- The status that an event gives a call. -/
def Event.status : Event → Option String
  | .respond status => status.map grpcStatusName
  | .fail => some "UNKNOWN"
  | .poll .pending | .poll .data => none
  | .poll (.trailers status) => some (grpcStatusName (status.getD "OK"))
  | .poll (.error code) => some (tonicCodeName code)
  | .poll .ended => some "OK"
  | .drop => some "CANCELLED"

/-- The status of the first event that has one. -/
def outcome (events : List (Event × ℕ)) : String :=
  (events.findSome? fun event => event.1.status).getD "CANCELLED"

/-- The inner service answered, with a response or an error, before the future was dropped. -/
def answered : List (Event × ℕ) → Bool
  | (.respond _, _) :: _ | (.fail, _) :: _ => true
  | _ => false

theorem run_cons_eq_some {phase last : Phase} {event : Event × ℕ} {events : List (Event × ℕ)}
    {samples : List Sample} (h : run phase (event :: events) = some (samples, last)) :
    ∃ first next rest, step phase event = some (first, next) ∧
      run next events = some (rest, last) ∧ samples = first ++ rest := by
  obtain ⟨done, hstep, h⟩ := Option.bind_eq_some_iff.mp h
  obtain ⟨rest, hrest, heq⟩ := Option.map_eq_some_iff.mp h
  cases heq
  exact ⟨done.1, done.2, rest.1, hstep, hrest, rfl⟩

theorem Observation.finish_of_mem {metrics : MethodMetrics} {startedAt now : ℕ} {status : String}
    (h : status ∈ statusNames) :
    (Observation.mk (some metrics) (some startedAt)).finish status now =
      if metrics.registered status then [⟨metrics.method, status, now - startedAt⟩] else [] := by
  show metrics.observe (grpcStatusName status) (now - startedAt) = _
  rw [grpcStatusName_of_mem h, MethodMetrics.observe, MethodMetrics.duration, if_pos h]
  cases metrics.registered status <;> rfl

/-- Nothing is recorded once the observation has been taken. -/
theorem run_finished {events : List (Event × ℕ)} {samples : List Sample} {last : Phase}
    (h : run (.body none) events = some (samples, last)) : samples = [] := by
  induction events generalizing samples with
  | nil =>
    cases h
    rfl
  | cons event events ih =>
    obtain ⟨first, next, rest, hstep, hrest, rfl⟩ := run_cons_eq_some h
    obtain ⟨event, now⟩ := event
    cases event with
    | poll result =>
      cases hstep
      cases result <;> exact ih hrest
    | drop =>
      cases hstep
      cases events with
      | nil =>
        cases hrest
        rfl
      | cons => cases hrest
    | respond | fail => cases hstep

/-- What a call leaves when it is recorded under a status. -/
def Recorded (metrics : MethodMetrics) (status : String) (samples : List Sample) : Prop :=
  ∃ duration,
    samples = if metrics.registered status then [⟨metrics.method, status, duration⟩] else []

section Observed

variable {metrics : MethodMetrics} {startedAt : ℕ}

theorem outcome_cons_of_status {event : Event × ℕ} {status : String}
    (h : event.1.status = some status) (events : List (Event × ℕ)) :
    outcome (event :: events) = status := by
  rw [outcome, List.findSome?_cons, h]
  rfl

theorem outcome_cons_of_none {event : Event × ℕ} (h : event.1.status = none)
    (events : List (Event × ℕ)) : outcome (event :: events) = outcome events := by
  rw [outcome, List.findSome?_cons, h]
  rfl

/-- The event that has the status takes the observation, so that it is recorded once. -/
theorem recorded_of_taken {event : Event} {status : String} {now : ℕ}
    {events : List (Event × ℕ)} {rest : List Sample} {last : Phase}
    (hstatus : event.status = some status) (hmem : status ∈ statusNames)
    (hrest : run (.body none) events = some (rest, last)) :
    Recorded metrics (outcome ((event, now) :: events))
      ((Observation.mk (some metrics) (some startedAt)).finish status now ++ rest) := by
  refine ⟨now - startedAt, ?_⟩
  rw [outcome_cons_of_status hstatus, run_finished hrest, List.append_nil,
    Observation.finish_of_mem hmem]

theorem run_ended {events : List (Event × ℕ)} {samples : List Sample} {last : Phase}
    (h : run .ended events = some (samples, last)) : samples = [] ∧ last = .ended := by
  cases events with
  | nil =>
    cases h
    exact ⟨rfl, rfl⟩
  | cons => cases h

/-- **The body** is recorded under the status of the first event that has one. -/
theorem run_body {events : List (Event × ℕ)} {samples : List Sample}
    (h : run (.body (some ⟨some metrics, some startedAt⟩)) events = some (samples, .ended)) :
    Recorded metrics (outcome events) samples := by
  induction events generalizing samples with
  | nil => cases h
  | cons event events ih =>
    obtain ⟨first, next, rest, hstep, hrest, rfl⟩ := run_cons_eq_some h
    obtain ⟨event, now⟩ := event
    cases event with
    | poll result =>
      cases hstep
      cases result with
      | pending | data =>
        rw [outcome_cons_of_none rfl]
        exact ih hrest
      | trailers status =>
        have hname := grpcStatusName_mem (status.getD "OK")
        have hfinish : ∀ observation : Observation,
            observation.finish (status.getD "OK") now =
              observation.finish (grpcStatusName (status.getD "OK")) now := by
          intro observation
          rw [Observation.finish, Observation.finish, grpcStatusName_of_mem hname]
        show Recorded metrics _
          ((Observation.mk (some metrics) (some startedAt)).finish (status.getD "OK") now ++ rest)
        rw [hfinish]
        exact recorded_of_taken rfl hname hrest
      | error code => exact recorded_of_taken rfl (tonicCodeName_mem code) hrest
      | ended => exact recorded_of_taken rfl (by decide) hrest
    | drop =>
      cases hstep
      obtain ⟨rfl, -⟩ := run_ended hrest
      refine ⟨now - startedAt, ?_⟩
      rw [outcome_cons_of_status rfl, List.append_nil]
      exact Observation.finish_of_mem (by decide)
    | respond | fail => cases hstep

/-- **The call** is recorded, unless its future is dropped before the inner service answers. -/
theorem run_awaiting {events : List (Event × ℕ)} {samples : List Sample}
    (h : run (.awaiting (some ⟨some metrics, some startedAt⟩)) events = some (samples, .ended)) :
    if answered events then Recorded metrics (outcome events) samples else samples = [] := by
  cases events with
  | nil => cases h
  | cons event events =>
    obtain ⟨first, next, rest, hstep, hrest, rfl⟩ := run_cons_eq_some h
    obtain ⟨event, now⟩ := event
    cases event with
    | respond status =>
      rw [answered, if_pos rfl]
      cases status with
      | none =>
        cases hstep
        rw [outcome_cons_of_none rfl]
        exact run_body hrest
      | some status =>
        cases hstep
        exact recorded_of_taken rfl (grpcStatusName_mem status) hrest
    | fail =>
      cases hstep
      obtain ⟨rfl, -⟩ := run_ended hrest
      rw [answered, if_pos rfl]
      refine ⟨now - startedAt, ?_⟩
      rw [outcome_cons_of_status rfl, List.append_nil]
      exact Observation.finish_of_mem (by decide)
    | drop =>
      cases hstep
      obtain ⟨rfl, -⟩ := run_ended hrest
      exact rfl
    | poll => cases hstep

end Observed

/-- The metrics a request is observed by. -/
def GrpcServerMetrics.metricsOf (server : GrpcServerMetrics) (request : Request) : MethodMetrics :=
  server.method (request.path.dropWhile fun c => c = '/').toString

theorem call_enabled {server : GrpcServerMetrics} (henabled : server.enabled = true)
    (tracingEnabled : Bool) (request : Request) (now : ℕ) :
    call server tracingEnabled request now =
      .awaiting (some ⟨some (server.metricsOf request), some now⟩) := by
  simp [call, henabled, GrpcServerMetrics.metricsOf]

/-- **One sample, under the status of the outcome.** -/
theorem call_observed_once {server : GrpcServerMetrics} (henabled : server.enabled = true)
    (tracingEnabled : Bool) (request : Request) (now : ℕ) {events : List (Event × ℕ)}
    {samples : List Sample}
    (hrun : run (call server tracingEnabled request now) events = some (samples, .ended)) :
    (∃ duration, samples = [⟨(server.metricsOf request).method, outcome events, duration⟩]) ↔
      answered events = true ∧
        (server.metricsOf request).registered (outcome events) = true := by
  rw [call_enabled henabled] at hrun
  have hrecorded := run_awaiting hrun
  cases hanswered : answered events with
  | false =>
    rw [hanswered, if_neg Bool.false_ne_true] at hrecorded
    subst hrecorded
    simp
  | true =>
    rw [hanswered, if_pos rfl] at hrecorded
    obtain ⟨duration, rfl⟩ := hrecorded
    cases (server.metricsOf request).registered (outcome events) <;> simp

def echoMetrics : MethodMetrics := ⟨"echo.Echo/Say", fun _ => true⟩

def echoServer : GrpcServerMetrics := ⟨true, ∅, echoMetrics⟩

def echoRequest : Request := ⟨"/echo.Echo/Say", false, false⟩

/-- A message and trailers with a status; the body is dropped afterwards. -/
def notFound : List (Event × ℕ) :=
  [(.respond none, 3), (.poll .data, 4), (.poll (.trailers (some "5")), 6), (.poll .ended, 7),
    (.drop, 8)]

theorem call_observed_once_notFound :
    ∃ duration, run (call echoServer false echoRequest 1) notFound =
      some ([⟨"echo.Echo/Say", "NOT_FOUND", duration⟩], .ended) := by
  have hrun : run (call echoServer false echoRequest 1) notFound =
      some ([⟨"echo.Echo/Say", "NOT_FOUND", 5⟩], .ended) := rfl
  obtain ⟨duration, hsample⟩ :=
    (call_observed_once rfl false echoRequest 1 hrun).mpr ⟨rfl, rfl⟩
  rw [hrun, hsample]
  exact ⟨duration, rfl⟩

/-- **A future that is dropped before the response** leaves no sample. -/
theorem abandoned_unobserved :
    ∃ samples, run (call echoServer false echoRequest 1) [(.drop, 2)] = some (samples, .ended) ∧
      ¬ ∃ duration, samples = [⟨"echo.Echo/Say", "CANCELLED", duration⟩] :=
  ⟨[], rfl, by simp⟩

end GrpcMetrics

end ServiceLib
