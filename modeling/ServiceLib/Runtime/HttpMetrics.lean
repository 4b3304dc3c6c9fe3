import ServiceLib.HashMap
import ServiceLib.Tally
import ServiceLib.Transition

/-!
# Active requests of the HTTP server

Follows `observe_http_server_request` in `src/runtime/telemetry/mod.rs`. The first poll of a request
increments the gauge of its route and awaits the rest of the service; the poll that gets the
response decrements it. A request that is dropped or panics while it awaits never comes to the
decrement.

**Theorem (`active_requests_balanced`).** As long as no counted request is dropped or panics while
it awaits the response, the gauge of each route is the number of its requests that do, and zero when
there are none.

The idea: the gauge is the number of the requests that await a response and of those that were
aborted meanwhile (`gauge_eq_active_add_leaked`), so that each of the latter is counted for good.
-/

namespace ServiceLib

namespace HttpMetrics

/-! ## Routes -/

/-- The labels that tell the gauges of a server apart: the method and the route. -/
abbrev Labels := String × String

/-- `HttpRouteMetrics`. -/
structure RouteMetrics where
  method : String
  route : String
  /-- Whether the gauge could be registered. -/
  activeRequests : Bool
  /-- The statuses with histograms. -/
  outcomes : List ℕ

def RouteMetrics.labels (metrics : RouteMetrics) : Labels := (metrics.method, metrics.route)

/-- The status a response is recorded under. Without histograms for 500 it may be none. -/
def RouteMetrics.outcome (metrics : RouteMetrics) (status : ℕ) : Option ℕ :=
  if status ∈ metrics.outcomes then some status
  else if 500 ∈ metrics.outcomes then some 500 else none

structure HttpServerMetrics where
  enabled : Bool
  tracingEnabled : Bool
  routes : HashMap String (HashMap String RouteMetrics)
  fallback : RouteMetrics

def HttpServerMetrics.route (state : HttpServerMetrics) (method route : String) : RouteMetrics :=
  ((state.routes.lookup method).bind fun routes => routes.lookup route).getD state.fallback

structure Request where
  method : String
  matchedPath : Option String
  uriPath : String
  /-- The headers name a parent span. -/
  tracingParent : Bool

/-- The metrics a request is counted in. -/
def HttpServerMetrics.routeMetrics (state : HttpServerMetrics) (request : Request) :
    Option RouteMetrics :=
  if state.enabled then
    some (state.route request.method (request.matchedPath.getD request.uriPath))
  else none

/-! ## Requests -/

/-- Where the future of the middleware stands. -/
inductive Phase
  | received (request : Request)
  /-- Awaits the response, without metrics or a span. -/
  | passing
  /-- Awaits the response. -/
  | running (metrics : Option RouteMetrics)
  | completed
  /-- Dropped or panicked; with the metrics, if that was at the await. -/
  | aborted (metrics : Option RouteMetrics)

/-- The gauges, the requests so far, and the statuses of the responses in the histograms. -/
structure State where
  gauge : Labels → ℤ
  observed : List (Labels × ℕ)
  requests : List Phase

def State.init : State := ⟨fun _ => 0, [], []⟩

inductive Action
  | receive (request : Request)
  /-- The first poll. -/
  | poll (r : ℕ)
  /-- The poll in which the rest of the service responds. -/
  | respond (r : ℕ) (status : ℕ)
  /-- The future is dropped, or the rest of the service panics. -/
  | abort (r : ℕ)

/-- `inc` and `dec`, if the route has a gauge. -/
def addActive (delta : ℤ) (gauge : Labels → ℤ) : Option RouteMetrics → Labels → ℤ
  | some metrics =>
    if metrics.activeRequests then
      Function.update gauge metrics.labels (gauge metrics.labels + delta)
    else gauge
  | none => gauge

/-- What follows the decrement: the histograms of the status, or a panic if there are none. -/
def respond (s : State) (r status : ℕ) : Option RouteMetrics → State
  | none => { s with requests := s.requests.set r .completed }
  | some metrics =>
    match metrics.outcome status with
    | some outcome => { s with
        observed := s.observed ++ [(metrics.labels, outcome)]
        requests := s.requests.set r .completed }
    | none => { s with requests := s.requests.set r (.aborted none) }

variable (state : HttpServerMetrics)

def step (s : State) : Action → Option State
  | .receive request => some { s with requests := s.requests ++ [.received request] }
  | .poll r =>
    match s.requests[r]? with
    | some (.received request) =>
      if !state.enabled && !(state.tracingEnabled && request.tracingParent) then
        some { s with requests := s.requests.set r .passing }
      else
        some { s with
          gauge := addActive 1 s.gauge (state.routeMetrics request)
          requests := s.requests.set r (.running (state.routeMetrics request)) }
    | _ => none
  | .respond r status =>
    match s.requests[r]? with
    | some .passing => some { s with requests := s.requests.set r .completed }
    | some (.running metrics) =>
      some (respond { s with gauge := addActive (-1) s.gauge metrics } r status metrics)
    | _ => none
  | .abort r =>
    match s.requests[r]? with
    | some (.received _) | some .passing =>
      some { s with requests := s.requests.set r (.aborted none) }
    | some (.running metrics) => some { s with requests := s.requests.set r (.aborted metrics) }
    | _ => none

def system : System State Action where
  init := .init
  step := step state

/-! ## What the gauge counts -/

/-- The metrics count the request in the gauge with these labels. -/
def counts (labels : Labels) : Option RouteMetrics → Bool
  | some metrics => metrics.activeRequests && (metrics.labels = labels)
  | none => false

/-- The request is past its increment and awaits the response. -/
def Phase.active (labels : Labels) : Phase → Bool
  | .running metrics => counts labels metrics
  | _ => false

/-- The request was aborted after its increment. -/
def Phase.leaked (labels : Labels) : Phase → Bool
  | .aborted metrics => counts labels metrics
  | _ => false

def Phase.alive : Phase → Bool
  | .received _ | .passing | .running _ => true
  | .completed | .aborted _ => false

/-- The share of a request in the gauge. -/
def Phase.share (labels : Labels) (phase : Phase) : ℤ :=
  if phase.active labels || phase.leaked labels then 1 else 0

theorem addActive_apply (delta : ℤ) (gauge : Labels → ℤ) (metrics : Option RouteMetrics)
    (labels : Labels) :
    addActive delta gauge metrics labels =
      gauge labels + if counts labels metrics then delta else 0 := by
  cases metrics with
  | none => simp [addActive, counts]
  | some metrics =>
    by_cases hactive : metrics.activeRequests
    · by_cases hlabels : metrics.labels = labels
      · subst hlabels
        simp [addActive, counts, hactive]
      · have hne : labels ≠ metrics.labels := fun h => hlabels h.symm
        simp [addActive, counts, hactive, hlabels, Function.update_of_ne hne]
    · simp [addActive, counts, hactive]

/-- Every gauge is the sum of the shares. -/
def Counted (s : State) : Prop :=
  ∀ labels, s.gauge labels = (s.requests.map (Phase.share labels)).sum

theorem counted_respond {s : State} {r : ℕ} {metrics : Option RouteMetrics} (status : ℕ)
    (h : Counted s) (hr : s.requests[r]? = some (.running metrics)) :
    Counted (respond { s with gauge := addActive (-1) s.gauge metrics } r status metrics) := by
  intro labels
  have hsum : ∀ phase, phase.share labels = 0 →
      addActive (-1) s.gauge metrics labels =
        ((s.requests.set r phase).map (Phase.share labels)).sum := by
    intro phase hphase
    rw [addActive_apply, sum_map_set _ hr, hphase, h labels]
    simp only [Phase.share, Phase.active, Phase.leaked, Bool.or_false]
    split <;> ring
  cases metrics with
  | none => exact hsum .completed rfl
  | some metrics =>
    simp only [respond]
    cases metrics.outcome status with
    | some outcome => exact hsum .completed rfl
    | none => exact hsum (.aborted none) rfl

theorem counted_step {s t : State} {a : Action} (h : Counted s) (hs : step state s a = some t) :
    Counted t := by
  cases a with
  | receive request =>
    cases hs
    intro labels
    show s.gauge labels = _
    rw [sum_map_concat, h labels]
    exact (add_zero _).symm
  | poll r =>
    simp only [step] at hs
    split at hs
    case h_1 request hr =>
      split at hs
      all_goals
        cases hs
        intro labels
      · show s.gauge labels = _
        rw [sum_map_set _ hr, h labels]
        simp [Phase.share, Phase.active, Phase.leaked]
      · show addActive 1 s.gauge _ labels = _
        rw [addActive_apply, sum_map_set _ hr, h labels]
        simp [Phase.share, Phase.active, Phase.leaked]
    case h_2 => cases hs
  | respond r status =>
    simp only [step] at hs
    split at hs
    case h_1 hr =>
      cases hs
      intro labels
      show s.gauge labels = _
      rw [sum_map_set _ hr, h labels]
      simp [Phase.share, Phase.active, Phase.leaked]
    case h_2 metrics hr =>
      cases hs
      exact counted_respond status h hr
    case h_3 => cases hs
  | abort r =>
    simp only [step] at hs
    split at hs
    case h_4 => cases hs
    all_goals
      rename_i hr
      cases hs
      intro labels
      show s.gauge labels = _
      rw [sum_map_set _ hr, h labels]
      simp [Phase.share, Phase.active, Phase.leaked, counts]

theorem counted {s : State} (h : (system state).Reachable s) : Counted s :=
  System.Reachable.invariant (S := system state) (I := Counted) (fun _ => rfl)
    (fun _ _ _ hi hs => counted_step state hi hs) h

/-- **The requests in the gauge** await their response or were aborted while they did. -/
theorem gauge_eq_active_add_leaked {s : State} (h : (system state).Reachable s) (labels : Labels) :
    s.gauge labels =
      s.requests.countP (Phase.active labels) + s.requests.countP (Phase.leaked labels) := by
  have hshare : s.gauge labels =
      s.requests.countP fun phase => phase.active labels || phase.leaked labels := by
    rw [counted state h labels]
    exact sum_map_eq_countP fun _ _ => rfl
  have hdisjoint : ∀ phase ∈ s.requests, phase.active labels = true →
      phase.leaked labels = false := by
    intro phase _ hactive
    cases phase with
    | running => rfl
    | received | passing | completed | aborted => exact absurd hactive Bool.false_ne_true
  rw [hshare, countP_or hdisjoint, Nat.cast_add]

/-! ## Without aborts -/

/-- The step does not abort a request that is counted in a gauge. -/
def sparesCounted (s : State) : Action → Bool
  | .abort r =>
    match s.requests[r]? with
    | some (.running (some metrics)) => !metrics.activeRequests
    | _ => true
  | _ => true

/-- No request was aborted while it was counted. -/
def Spared (s : State) : Prop := ∀ phase ∈ s.requests, ∀ labels, phase.leaked labels = false

theorem spared_step {s t : State} {a : Action} (h : Spared s) (hspares : sparesCounted s a = true)
    (hs : step state s a = some t) : Spared t := by
  cases a with
  | receive request =>
    cases hs
    exact forall_mem_concat h fun _ => rfl
  | poll r =>
    simp only [step] at hs
    split at hs
    case h_1 request hr =>
      split at hs
      all_goals
        cases hs
        exact forall_mem_set h (fun _ => rfl) r
    case h_2 => cases hs
  | respond r status =>
    simp only [step] at hs
    split at hs
    case h_1 hr =>
      cases hs
      exact forall_mem_set h (fun _ => rfl) r
    case h_2 metrics hr =>
      cases hs
      cases metrics with
      | none => exact forall_mem_set h (fun _ => rfl) r
      | some metrics =>
        simp only [respond]
        cases metrics.outcome status <;> exact forall_mem_set h (fun _ => rfl) r
    case h_3 => cases hs
  | abort r =>
    simp only [step] at hs
    split at hs
    case h_3 metrics hr =>
      cases hs
      apply forall_mem_set h
      intro labels
      cases metrics with
      | none => rfl
      | some metrics =>
        simp only [sparesCounted, hr, Bool.not_eq_true'] at hspares
        simp [Phase.leaked, counts, hspares]
    case h_4 => cases hs
    all_goals
      cases hs
      exact forall_mem_set h (fun _ => rfl) r

/-- **The gauges are balanced.** -/
theorem active_requests_balanced {s : State}
    (h : (system state).Reach (fun s a => sparesCounted s a = true) s) (labels : Labels) :
    s.gauge labels = s.requests.countP (Phase.active labels) ∧
      ((∀ phase ∈ s.requests, phase.alive = false) → s.gauge labels = 0) := by
  have hspared : Spared s :=
    h.invariant (I := Spared) (fun _ hmem => absurd hmem List.not_mem_nil)
      (fun _ _ _ hi hspares hs => spared_step state hi hspares hs)
  have hleaked : s.requests.countP (Phase.leaked labels) = 0 := by
    apply List.countP_eq_zero.mpr
    intro phase hphase
    rw [hspared phase hphase labels]
    exact Bool.false_ne_true
  have hgauge : s.gauge labels = s.requests.countP (Phase.active labels) := by
    rw [gauge_eq_active_add_leaked state h.reachable labels, hleaked, Nat.cast_zero, add_zero]
  refine ⟨hgauge, fun hdead => ?_⟩
  have hactive : s.requests.countP (Phase.active labels) = 0 := by
    apply List.countP_eq_zero.mpr
    intro phase hphase
    have halive := hdead phase hphase
    cases phase with
    | running => exact absurd halive.symm Bool.false_ne_true
    | received | passing | completed | aborted => exact Bool.false_ne_true
  rw [hgauge, hactive, Nat.cast_zero]

/-- One route, with its histograms. -/
def ordersRoute : RouteMetrics := ⟨"GET", "/orders", true, [200, 500]⟩

def ordersServer : HttpServerMetrics where
  enabled := true
  tracingEnabled := false
  routes := ∅
  fallback := ordersRoute

def ordersRequest : Request := ⟨"GET", some "/orders", "/orders", false⟩

/-- Two requests; the first gets its response. -/
def oneResponse : List Action :=
  [.receive ordersRequest, .poll 0, .receive ordersRequest, .poll 1, .respond 0 404]

theorem active_requests_balanced_oneResponse :
    ∃ s, (system ordersServer).Reachable s ∧ s.requests.length = 2 ∧
      s.gauge ("GET", "/orders") = s.requests.countP (Phase.active ("GET", "/orders")) := by
  have hrun : (((system ordersServer).restrict fun s a => sparesCounted s a = true).run .init
      oneResponse).map (fun s => decide (s.requests.length = 2)) = some true := by
    decide +kernel
  obtain ⟨s, hs, hlength⟩ := Option.map_eq_some_iff.mp hrun
  have h := (System.Reachable.run .init hs).reach
  exact ⟨s, h.reachable, of_decide_eq_true hlength,
    (active_requests_balanced ordersServer h _).1⟩

/-- **A client that disconnects** is counted for good. -/
theorem disconnect_leaks :
    ∃ s, (system ordersServer).Reachable s ∧ (∀ phase ∈ s.requests, phase.alive = false) ∧
      s.gauge ("GET", "/orders") = 1 := by
  have hrun : ((system ordersServer).run .init [.receive ordersRequest, .poll 0, .abort 0]).map
      (fun s => decide ((s.requests.all fun phase => !phase.alive) = true ∧
        s.gauge ("GET", "/orders") = 1)) = some true := by
    decide +kernel
  obtain ⟨s, hs, hfacts⟩ := Option.map_eq_some_iff.mp hrun
  obtain ⟨hdead, hgauge⟩ := of_decide_eq_true hfacts
  refine ⟨s, System.Reachable.run .init hs, fun phase hphase => ?_, hgauge⟩
  have hphase := List.all_eq_true.mp hdead phase hphase
  rwa [Bool.not_eq_true'] at hphase

end HttpMetrics

end ServiceLib
