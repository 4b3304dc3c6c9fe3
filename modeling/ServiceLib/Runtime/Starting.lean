import ServiceLib.Runtime.ServiceApp

/-!
# Leaving `Starting`

Follows `start`, `start_graph` and `start_with_admission` of `src/runtime/serviceapp.rs`, over the
application of `Runtime/ServiceApp.lean`. A call takes the state from `Created` to `Starting`,
starts one resource after the other, and takes it on to `Running`; after an error it then calls
`stop` itself. Only these two steps know about `Starting`, and between them lie the awaits of every
resource.

`starting_has_start`: as long as no call is dropped and no resource panics on the way, an
application that is `Starting` has a `start` in progress, so without one it can be stopped. A call
that is lost on the way leaves `Starting` behind for ever, and every `stop` is refused.

The state lock is held across no await: a call that asks for it may be dropped, and else gets it.
-/

namespace ServiceLib

namespace Starting

open ServiceApp (Config AppState)

/-! ## Data -/

/-- What `start_with_admission` starts. -/
inductive Resource
  | streams
  | runtimeMetrics
  | storage
  | taskPool
  | priorityTaskPool
  | component
  | dataSink
  | dataSource
  | grpcServer
  | httpServer
  deriving DecidableEq

/-- Is the resource started by a future? -/
def Resource.awaits : Resource → Bool
  | streams | taskPool | priorityTaskPool => false
  | _ => true

/-- The resources in the order they are started. -/
def resources (cfg : Config) (admission : Bool) : List Resource :=
  [.streams, .runtimeMetrics] ++ List.replicate cfg.storages .storage ++
    List.replicate cfg.taskPools .taskPool ++
    List.replicate cfg.priorityTaskPools .priorityTaskPool ++
    List.replicate cfg.components .component ++ List.replicate cfg.dataSinks .dataSink ++
    if admission then List.replicate cfg.dataSources .dataSource ++ [.grpcServer, .httpServer]
    else []

/-- Where a call of `start` is. -/
inductive Pc
  | absent
  /-- Waiting for the state lock. -/
  | locking
  /-- Starting the first of these resources. -/
  | starting (resources : List Resource)
  /-- The resources are started, or one has failed; waiting for the state lock. -/
  | settling (result : RuntimeResult Unit)
  /-- In the `stop` call that follows an error. -/
  | stopping (stop : ℕ) (error : RuntimeError)
  | returned (result : RuntimeResult Unit)
  | dropped
  | panicked
  deriving DecidableEq

namespace Pc

/-- The call is in progress. -/
def alive : Pc → Bool
  | locking | starting _ | settling _ | stopping _ _ => true
  | absent | returned _ | dropped | panicked => false

/-- The call has set `Starting`, and has not set `Running` yet. -/
def active : Pc → Bool
  | starting _ | settling _ => true
  | _ => false

end Pc

/-- `admission` tells `start` from `start_graph`. -/
structure Start where
  admission : Bool
  pc : Pc

structure State where
  app : ServiceApp.State
  starts : ℕ → Start
  /-- The `stop` calls that were made by a `start`. -/
  nested : Finset ℕ

def State.init : State := ⟨.init, fun _ => ⟨false, .absent⟩, ∅⟩

def State.goto (s : State) (a : ℕ) (pc : Pc) : State :=
  { s with starts := Function.update s.starts a { s.starts a with pc := pc } }

/-! ## The steps -/

inductive Action
  | start (a : ℕ) (admission : Bool)
  /-- The state lock is free: `Created` becomes `Starting`. -/
  | enter (a : ℕ)
  /-- The next resource is started. For a server, `serve` says whether there is one. -/
  | started (a : ℕ) (serve : Bool)
  | failed (a : ℕ) (error : RuntimeError)
  | allStarted (a : ℕ)
  /-- The state becomes `Running`; after an error `stop` is called, as call number `b`. -/
  | settle (a b : ℕ)
  | stopped (a : ℕ)
  | drop (a : ℕ)
  /-- The start of a resource panics. -/
  | panic (a : ℕ)
  /-- A step of the application itself. -/
  | app (x : ServiceApp.Action)

/-- What the start of a resource does to the application. -/
def startResource (cfg : Config) (app : ServiceApp.State) (serve : Bool) :
    Resource → Option ServiceApp.State
  | .grpcServer => ServiceApp.step cfg app (.startGrpc serve)
  | .httpServer => ServiceApp.step cfg app (.startHttp serve)
  | _ => some app

/-- The steps that are not taken by `start`. A `stop` call is dropped by whoever made it. -/
def free (s : State) : ServiceApp.Action → Bool
  | .start | .startGrpc _ | .startHttp _ | .started => false
  | .drop b => b ∉ s.nested
  | _ => true

def step (cfg : Config) (s : State) : Action → Option State
  | .start a admission =>
    match (s.starts a).pc with
    | .absent => some { s with starts := Function.update s.starts a ⟨admission, .locking⟩ }
    | _ => none
  | .enter a =>
    match (s.starts a).pc with
    | .locking =>
      match ServiceApp.step cfg s.app .start with
      | none => some (s.goto a (.returned (.error (.resourceAlreadyStarted cfg.name))))
      | some app => some (State.goto { s with app := app } a
          (.starting (resources cfg (s.starts a).admission)))
    | _ => none
  | .started a serve =>
    match (s.starts a).pc with
    | .starting (r :: rest) =>
      (startResource cfg s.app serve r).map fun app =>
        State.goto { s with app := app } a (.starting rest)
    | _ => none
  | .failed a error =>
    match (s.starts a).pc with
    | .starting (_ :: _) => some (s.goto a (.settling (.error error)))
    | _ => none
  | .allStarted a =>
    match (s.starts a).pc with
    | .starting [] => some (s.goto a (.settling (.ok ())))
    | _ => none
  | .settle a b =>
    match (s.starts a).pc with
    | .settling result => do
      let app ← ServiceApp.step cfg s.app .started
      match result with
      | .ok () => some (State.goto { s with app := app } a (.returned (.ok ())))
      | .error error =>
        let app ← ServiceApp.step cfg app (.call b)
        some (State.goto { s with app := app, nested := insert b s.nested } a (.stopping b error))
    | _ => none
  | .stopped a =>
    match (s.starts a).pc with
    | .stopping b error =>
      match (s.app.stops b).pc with
      | .returned _ => some (s.goto a (.returned (.error error)))
      | _ => none
    | _ => none
  | .drop a =>
    match (s.starts a).pc with
    | .locking | .settling _ => some (s.goto a .dropped)
    | .starting (r :: _) => if r.awaits then some (s.goto a .dropped) else none
    | .stopping b _ =>
      (ServiceApp.step cfg s.app (.drop b)).map fun app => State.goto { s with app := app } a .dropped
    | _ => none
  | .panic a =>
    match (s.starts a).pc with
    | .starting (_ :: _) => some (s.goto a .panicked)
    | _ => none
  | .app x => if free s x then (ServiceApp.step cfg s.app x).map fun app => { s with app := app }
    else none

def system (cfg : Config) : System State Action := ⟨.init, step cfg⟩

/-! ## The application below -/

/-- `start` is on its way through the resources. -/
def underway (p : ServiceApp.StartPc) : Bool := p ≠ .idle ∧ p ≠ .finished

theorem starting_iff_underway {cfg : Config} {app : ServiceApp.State} (h : ServiceApp.Ok cfg app) :
    app.app = .starting ↔ underway app.start = true := by
  rw [h.app.started, underway, decide_eq_true_iff]

theorem start_drain {cfg : Config} {app app' : ServiceApp.State} {b : ℕ} {sv : Bool}
    (hs : ServiceApp.drain cfg app b sv = some app') : app'.start = app.start := by
  unfold ServiceApp.drain at hs
  simp only at hs
  split_ifs at hs
  · split at hs <;> cases hs <;> cases sv <;> rfl
  · cases hs
    cases sv <;> rfl

theorem start_launch (cfg : Config) (app : ServiceApp.State) (b i : ℕ) :
    (ServiceApp.launch cfg app b i).start = app.start := by
  unfold ServiceApp.launch
  simp only
  split_ifs <;> rfl

theorem start_join {cfg : Config} {app app' : ServiceApp.State} {b i : ℕ}
    (hs : ServiceApp.join cfg app b i = some app') : app'.start = app.start := by
  unfold ServiceApp.join at hs
  simp only at hs
  split_ifs at hs <;> (repeat' split at hs) <;> cases hs <;> rfl

/-- A `stop` call knows nothing of where `start` is. -/
theorem start_stepStop (cfg : Config) {app app' : ServiceApp.State} {b : ℕ} {x : ServiceApp.Action}
    (hs : ServiceApp.stepStop cfg app b x = some app') : app'.start = app.start := by
  unfold ServiceApp.stepStop at hs
  cases x with
  | cancel _ =>
    cases hs
    rfl
  | check _ =>
    cases hpc : (app.stops b).pc <;> simp only [hpc, reduceCtorEq] at hs
    cases hs
    unfold ServiceApp.check
    cases app.app <;> simp only <;> first | rfl | (split <;> rfl)
  | drain _ =>
    cases hpc : (app.stops b).pc <;> simp only [hpc, reduceCtorEq] at hs
    exact start_drain hs
  | launch _ =>
    cases hpc : (app.stops b).pc <;> simp only [hpc, reduceCtorEq] at hs
    cases hs
    exact start_launch cfg app b _
  | join _ =>
    cases hpc : (app.stops b).pc <;> simp only [hpc, reduceCtorEq] at hs
    exact start_join hs
  | call _ | finish _ | drop _ =>
    cases hpc : (app.stops b).pc <;> simp only [hpc, reduceCtorEq] at hs
    all_goals
      cases hs
      rfl
  | lock _ | lockCancelled _ | drainCancelled _ | head _ | joinCancelled _ =>
    cases hpc : (app.stops b).pc <;> simp only [hpc, reduceCtorEq] at hs
    split_ifs at hs <;> (cases hs; rfl)
  | start | startGrpc _ | startHttp _ | started | endServer _ _ | endJob _ _ => cases hs

/-- Nor do the tasks and servers. -/
theorem start_step {cfg : Config} {s : State} {x : ServiceApp.Action} {app : ServiceApp.State}
    (hf : free s x = true) (hs : ServiceApp.step cfg s.app x = some app) :
    app.start = s.app.start := by
  unfold ServiceApp.step at hs
  cases x with
  | start | startGrpc _ | startHttp _ | started => cases hf
  | endServer sv _ =>
    simp only at hs
    split_ifs at hs
    cases hs
    cases sv <;> rfl
  | endJob _ _ =>
    simp only at hs
    split at hs
    case h_1 =>
      split_ifs at hs
      cases hs
      rfl
    case h_2 => cases hs
  | call _ | cancel _ | lock _ | lockCancelled _ | check _ | drain _ | drainCancelled _ | head _
  | launch _ | join _ | joinCancelled _ | finish _ | drop _ => exact start_stepStop cfg hs

/-- The application has taken a step, or none. -/
def Below (cfg : Config) (app app' : ServiceApp.State) : Prop :=
  app' = app ∨ ∃ x, ServiceApp.step cfg app x = some app'

theorem Below.reachable {cfg : Config} {app app' : ServiceApp.State} (hb : Below cfg app app')
    (h : (ServiceApp.serviceApp cfg).Reachable app) :
    (ServiceApp.serviceApp cfg).Reachable app' := by
  obtain rfl | ⟨x, hx⟩ := hb
  · exact h
  · exact h.next (a := x) hx

/-- A server is started in the middle of the way. -/
theorem underway_startResource {cfg : Config} {app app' : ServiceApp.State} {serve : Bool}
    {r : Resource} (hs : startResource cfg app serve r = some app') :
    underway app'.start = underway app.start ∧ Below cfg app app' := by
  cases r with
  | grpcServer =>
    refine ⟨?_, .inr ⟨.startGrpc serve, hs⟩⟩
    simp only [startResource, ServiceApp.step] at hs
    split_ifs at hs with h <;>
      (cases hs
       rw [h]
       rfl)
  | httpServer =>
    refine ⟨?_, .inr ⟨.startHttp serve, hs⟩⟩
    simp only [startResource, ServiceApp.step] at hs
    split_ifs at hs with h <;>
      (cases hs
       rw [h]
       rfl)
  | _ =>
    cases hs
    exact ⟨rfl, .inl rfl⟩

/-! ## What a step does -/

/-- Which calls have set `Starting` and not yet `Running`. -/
def State.active (s : State) (a : ℕ) : Bool := (s.starts a).pc.active

/-- The step loses a call on its way: it is dropped, or a resource panics. -/
def loses (s : State) : Action → Bool
  | .drop a | .panic a => s.active a
  | _ => false

theorem active_goto (s : State) (app : ServiceApp.State) (nested : Finset ℕ) (a : ℕ) (pc : Pc) :
    State.active (State.goto { s with app := app, nested := nested } a pc) =
      Function.update s.active a pc.active := by
  funext a'
  by_cases ha : a' = a
  · subst ha
    simp [State.active, State.goto]
  · simp [State.active, State.goto, ha]

/-- A step that leaves it to be whether the call is on its way. -/
theorem active_goto_same {s : State} {a : ℕ} {old pc : Pc} (hpc : (s.starts a).pc = old)
    (h : pc.active = old.active) (app : ServiceApp.State) (nested : Finset ℕ) :
    State.active (State.goto { s with app := app, nested := nested } a pc) = s.active := by
  rw [active_goto, h, ← hpc]
  exact Function.update_eq_self a s.active

/-- What a step can do to the calls that are on their way. -/
inductive Effect (cfg : Config) (s t : State) (x : Action) : Prop
  | enter (a : ℕ) : underway s.app.start = false → underway t.app.start = true →
      t.active = Function.update s.active a true → loses s x = false → Effect cfg s t x
  | settle (a : ℕ) : s.active a = true → underway t.app.start = false →
      t.active = Function.update s.active a false → loses s x = false → Effect cfg s t x
  | stay : underway t.app.start = underway s.app.start → Below cfg s.app t.app →
      t.active = s.active → loses s x = false → Effect cfg s t x
  | lose (a : ℕ) : t.app = s.app → s.active a = true →
      t.active = Function.update s.active a false → loses s x = true → Effect cfg s t x

theorem start_of_started {cfg : Config} {app app' : ServiceApp.State}
    (hs : ServiceApp.step cfg app .started = some app') : app'.start = .finished := by
  simp only [ServiceApp.step] at hs
  split_ifs at hs
  cases hs
  rfl

theorem underway_of_start {cfg : Config} {app app' : ServiceApp.State} (hok : ServiceApp.Ok cfg app)
    (hs : ServiceApp.step cfg app .start = some app') :
    underway app.start = false ∧ underway app'.start = true := by
  simp only [ServiceApp.step] at hs
  split_ifs at hs with h
  cases hs
  rw [hok.app.created h]
  exact ⟨rfl, rfl⟩

/-- Every step has one of these effects, and the application below takes steps of its own. -/
theorem step_effect {cfg : Config} {s t : State} {x : Action}
    (h : (ServiceApp.serviceApp cfg).Reachable s.app) (hs : step cfg s x = some t) :
    Effect cfg s t x ∧ (ServiceApp.serviceApp cfg).Reachable t.app := by
  cases x with
  | start a admission =>
    simp only [step] at hs
    cases hpc : (s.starts a).pc <;> simp only [hpc, reduceCtorEq] at hs
    cases hs
    refine ⟨.stay rfl (.inl rfl) (funext fun a' => ?_) rfl, h⟩
    by_cases ha : a' = a
    · subst ha
      simp [State.active, hpc, Pc.active]
    · simp [State.active, ha]
  | enter a =>
    simp only [step] at hs
    cases hpc : (s.starts a).pc <;> simp only [hpc, reduceCtorEq] at hs
    cases happ : ServiceApp.step cfg s.app .start with
    | none =>
      rw [happ] at hs
      cases hs
      exact ⟨.stay rfl (.inl rfl) (active_goto_same hpc (by rfl) _ _) rfl, h⟩
    | some app =>
      rw [happ] at hs
      cases hs
      obtain ⟨hu, hu'⟩ := underway_of_start (ServiceApp.ok_reachable h) happ
      exact ⟨.enter a hu hu' (active_goto s app s.nested a _) rfl, h.next (a := .start) happ⟩
  | started a serve =>
    simp only [step] at hs
    cases hpc : (s.starts a).pc <;> simp only [hpc, reduceCtorEq] at hs
    rename_i todo
    cases todo with
    | nil => cases hs
    | cons r rest =>
      simp only [Option.map_eq_some_iff] at hs
      obtain ⟨app, happ, rfl⟩ := hs
      obtain ⟨hu, hb⟩ := underway_startResource happ
      exact ⟨.stay hu hb (active_goto_same hpc (by rfl) _ _) rfl, hb.reachable h⟩
  | failed a error =>
    simp only [step] at hs
    cases hpc : (s.starts a).pc <;> simp only [hpc, reduceCtorEq] at hs
    rename_i todo
    cases todo with
    | nil => cases hs
    | cons r rest =>
      cases hs
      exact ⟨.stay rfl (.inl rfl) (active_goto_same hpc (by rfl) _ _) rfl, h⟩
  | allStarted a =>
    simp only [step] at hs
    cases hpc : (s.starts a).pc <;> simp only [hpc, reduceCtorEq] at hs
    rename_i todo
    cases todo with
    | cons r rest => cases hs
    | nil =>
      cases hs
      exact ⟨.stay rfl (.inl rfl) (active_goto_same hpc (by rfl) _ _) rfl, h⟩
  | settle a b =>
    simp only [step] at hs
    cases hpc : (s.starts a).pc <;> simp only [hpc, reduceCtorEq] at hs
    rename_i result
    have hact : s.active a = true := by rw [State.active, hpc]; rfl
    simp only [Option.bind_eq_bind, Option.bind_eq_some_iff] at hs
    obtain ⟨app, happ, hs⟩ := hs
    have hfin := start_of_started happ
    have hr : (ServiceApp.serviceApp cfg).Reachable app :=
      h.next (t := app) (a := ServiceApp.Action.started) happ
    cases result with
    | ok u =>
      cases hs
      refine ⟨.settle a hact ?_ (active_goto s app s.nested a _) rfl, hr⟩
      rw [State.goto, hfin]
      rfl
    | error e =>
      simp only [Option.bind_eq_some_iff] at hs
      obtain ⟨app', happ', hs⟩ := hs
      cases hs
      have hcall : app'.start = app.start := start_stepStop cfg (b := b) (x := .call b) happ'
      refine ⟨.settle a hact ?_ (active_goto s app' _ a _) rfl, hr.next (a := .call b) happ'⟩
      rw [State.goto, hcall, hfin]
      rfl
  | stopped a =>
    simp only [step] at hs
    cases hpc : (s.starts a).pc <;> simp only [hpc, reduceCtorEq] at hs
    rename_i b error
    cases hb : (s.app.stops b).pc <;> simp only [hb, reduceCtorEq] at hs
    cases hs
    exact ⟨.stay rfl (.inl rfl) (active_goto_same hpc (by rfl) _ _) rfl, h⟩
  | drop a =>
    simp only [step] at hs
    cases hpc : (s.starts a).pc <;> simp only [hpc, reduceCtorEq] at hs
    case locking =>
      cases hs
      exact ⟨.stay rfl (.inl rfl) (active_goto_same hpc (by rfl) _ _)
        (by simp [loses, State.active, hpc, Pc.active]), h⟩
    case settling result =>
      cases hs
      have hact : s.active a = true := by rw [State.active, hpc]; rfl
      exact ⟨.lose a rfl hact (active_goto s s.app s.nested a _) hact, h⟩
    case stopping b error =>
      simp only [Option.map_eq_some_iff] at hs
      obtain ⟨app, happ, rfl⟩ := hs
      have hdrop : app.start = s.app.start := start_stepStop cfg (b := b) (x := .drop b) happ
      exact ⟨.stay (by rw [State.goto, hdrop]) (.inr ⟨_, happ⟩) (active_goto_same hpc (by rfl) _ _)
        (by simp [loses, State.active, hpc, Pc.active]), h.next (a := .drop b) happ⟩
    case starting todo =>
      have hact : s.active a = true := by rw [State.active, hpc]; rfl
      cases todo with
      | nil => cases hs
      | cons r rest =>
        simp only at hs
        split_ifs at hs
        cases hs
        exact ⟨.lose a rfl hact (active_goto s s.app s.nested a _) hact, h⟩
  | panic a =>
    simp only [step] at hs
    cases hpc : (s.starts a).pc <;> simp only [hpc, reduceCtorEq] at hs
    rename_i todo
    have hact : s.active a = true := by rw [State.active, hpc]; rfl
    cases todo with
    | nil => cases hs
    | cons r rest =>
      cases hs
      exact ⟨.lose a rfl hact (active_goto s s.app s.nested a _) hact, h⟩
  | app y =>
    simp only [step] at hs
    split_ifs at hs with hf
    simp only [Option.map_eq_some_iff] at hs
    obtain ⟨app, happ, rfl⟩ := hs
    exact ⟨.stay (by rw [start_step hf happ]) (.inr ⟨y, happ⟩) rfl rfl, h.next (a := y) happ⟩

/-! ## The invariant -/

/-- At most one call is on its way, and the application says so. -/
structure Inv (cfg : Config) (s : State) : Prop where
  app : (ServiceApp.serviceApp cfg).Reachable s.app
  onWay : ∀ a, s.active a = true → underway s.app.start = true
  unique : ∀ a a', s.active a = true → s.active a' = true → a = a'

theorem inv_init (cfg : Config) : Inv cfg .init where
  app := System.Reach.init
  onWay := fun _ h => by cases h
  unique := fun _ _ h => by cases h

/-- Without the call that was on its way none is. -/
theorem Inv.none_left {cfg : Config} {s t : State} (h : Inv cfg s) {a : ℕ} (ha : s.active a = true)
    (hact : t.active = Function.update s.active a false) (a' : ℕ) : t.active a' = false := by
  rw [hact, Function.update_apply]
  split_ifs with hne
  · rfl
  · by_contra hc
    exact hne (h.unique a' a (by simpa using hc) ha)

theorem Inv.step {cfg : Config} {s t : State} {x : Action} (h : Inv cfg s)
    (hs : step cfg s x = some t) : Inv cfg t := by
  obtain ⟨heff, hr⟩ := step_effect h.app hs
  cases heff with
  | enter a hu hu' hact _ =>
    -- whoever was on its way before would have been seen
    have hnone : ∀ a', s.active a' = false := by
      intro a'
      by_contra hc
      rw [h.onWay a' (by simpa using hc)] at hu
      cases hu
    have hself : ∀ a', t.active a' = true → a' = a := by
      intro a' ha'
      by_contra hne
      rw [hact, Function.update_of_ne hne, hnone] at ha'
      cases ha'
    exact ⟨hr, fun _ _ => hu', fun a₁ a₂ h₁ h₂ => (hself a₁ h₁).trans (hself a₂ h₂).symm⟩
  | settle a ha _ hact _ =>
    have hnone := h.none_left ha hact
    exact ⟨hr, fun a' ha' => by simp [hnone] at ha', fun a' _ ha' => by simp [hnone] at ha'⟩
  | stay hu _ hact _ =>
    refine ⟨hr, fun a ha => ?_, fun a a' ha ha' => ?_⟩
    · rw [hact] at ha
      rw [hu, h.onWay a ha]
    · rw [hact] at ha ha'
      exact h.unique a a' ha ha'
  | lose a happ ha hact _ =>
    have hnone := h.none_left ha hact
    exact ⟨hr, fun a' ha' => by simp [hnone] at ha', fun a' _ ha' => by simp [hnone] at ha'⟩

theorem inv_reachable {cfg : Config} {s : State} (h : (system cfg).Reachable s) : Inv cfg s :=
  h.invariant (inv_init cfg) fun _ _ _ hi hs => hi.step hs

theorem Inv.starting_iff {cfg : Config} {s : State} (h : Inv cfg s) :
    s.app.app = .starting ↔ underway s.app.start = true :=
  starting_iff_underway (ServiceApp.ok_reachable h.app)

/-- Until a call is lost, the application is on its way only with one. -/
theorem covered_step {cfg : Config} {s t : State} {x : Action} (hi : Inv cfg s)
    (h : underway s.app.start = true → ∃ a, s.active a = true) (hx : loses s x = false)
    (hs : step cfg s x = some t) (hu : underway t.app.start = true) : ∃ a, t.active a = true := by
  cases (step_effect hi.app hs).1 with
  | enter a _ _ hact _ => exact ⟨a, by rw [hact, Function.update_self]⟩
  | settle a _ hf _ _ =>
    rw [hf] at hu
    cases hu
  | stay hsame _ hact _ =>
    obtain ⟨a, ha⟩ := h (hsame ▸ hu)
    exact ⟨a, by rw [hact, ha]⟩
  | lose a _ _ _ hl =>
    rw [hl] at hx
    cases hx

/-! ## Stuck -/

/-- The application is on its way, and no call is. -/
structure Stuck (s : State) : Prop where
  onWay : underway s.app.start = true
  lost : ∀ a, s.active a = false

/-- Nothing gets an application out of there. -/
theorem Stuck.next {cfg : Config} {s t : State} {x : Action} (hi : Inv cfg s) (h : Stuck s)
    (hs : step cfg s x = some t) : Stuck t ∧ Below cfg s.app t.app := by
  have hnone : ∀ a, s.active a = true → False := fun a ha => by simp [h.lost a] at ha
  cases (step_effect hi.app hs).1 with
  | enter a hu _ _ _ =>
    rw [h.onWay] at hu
    cases hu
  | settle a ha _ _ _ => exact (hnone a ha).elim
  | stay hu hb hact _ => exact ⟨⟨hu.trans h.onWay, fun a => by rw [hact, h.lost a]⟩, hb⟩
  | lose a _ ha _ _ => exact (hnone a ha).elim

/-- The results of a `stop` call that achieved nothing. -/
def Refused (cfg : Config) (r : RuntimeResult Unit) : Prop :=
  r = .error (.resourceAlreadyStarted cfg.name) ∨ r = .error .contextCancelled

/-- Who has the progress mutex of an application that is starting has not checked the state yet. -/
theorem checking_of_holds {cfg : Config} {app : ServiceApp.State} (h : ServiceApp.Ok cfg app)
    (happ : app.app = .starting) {b : ℕ} (hb : (app.stops b).pc.holds = true) :
    (app.stops b).pc = .checking := by
  have hh := h.stops.holding b hb
  have hclear : ServiceApp.Clear app → False := fun hc => by
    have := happ.symm.trans hc.app
    cases this
  cases hpc : (app.stops b).pc <;> rw [hpc] at hb hh <;>
    first | rfl | exact (hclear hh.1).elim | cases hb

/-- A `stop` call that moves another call, or moves it somewhere else, does not return here. -/
theorem returned_goto {app : ServiceApp.State} {b b' : ℕ} {pc : ServiceApp.StopPc}
    {r : RuntimeResult Unit} (h : ((app.goto b' pc).stops b).pc = .returned r) :
    (app.stops b).pc = .returned r ∨ pc = .returned r := by
  by_cases hb : b = b'
  · subst hb
    right
    simpa [ServiceApp.State.goto] using h
  · left
    simpa [ServiceApp.State.goto, hb] using h

/-- As long as the application is starting, a `stop` call is refused. -/
theorem refused_of_starting {cfg : Config} {app app' : ServiceApp.State} {x : ServiceApp.Action}
    {b : ℕ} {r : RuntimeResult Unit} (h : ServiceApp.Ok cfg app) (happ : app.app = .starting)
    (hs : ServiceApp.step cfg app x = some app') (hr : (app'.stops b).pc = .returned r) :
    (app.stops b).pc = .returned r ∨ Refused cfg r := by
  have hold : ∀ {b'}, (app.stops b').pc.holds = true → (app.stops b').pc = .checking :=
    fun hb => checking_of_holds h happ hb
  unfold ServiceApp.step at hs
  cases x with
  | start | startGrpc _ | startHttp _ | started =>
    simp only at hs
    split_ifs at hs <;>
      (cases hs
       exact .inl hr)
  | endServer sv _ =>
    simp only at hs
    split_ifs at hs
    cases hs
    cases sv <;> exact .inl hr
  | endJob _ _ =>
    simp only at hs
    split at hs
    case h_1 =>
      split_ifs at hs
      cases hs
      exact .inl hr
    case h_2 => cases hs
  | cancel b' =>
    cases hs
    left
    by_cases hb : b = b'
    · subst hb
      simpa using hr
    · simpa [hb] using hr
  | call b' =>
    simp only [ServiceApp.stepStop] at hs
    cases hpc : (app.stops b').pc <;> simp only [hpc, reduceCtorEq] at hs
    cases hs
    left
    by_cases hb : b = b'
    · subst hb
      simp at hr
    · simpa [hb] using hr
  | lock b' =>
    simp only [ServiceApp.stepStop] at hs
    cases hpc : (app.stops b').pc <;> simp only [hpc, reduceCtorEq] at hs
    split_ifs at hs
    cases hs
    exact (returned_goto hr).imp_right (fun h => by cases h)
  | lockCancelled b' =>
    simp only [ServiceApp.stepStop] at hs
    cases hpc : (app.stops b').pc <;> simp only [hpc, reduceCtorEq] at hs
    split_ifs at hs
    cases hs
    refine (returned_goto hr).imp_right (fun h => ?_)
    cases h
    exact .inr rfl
  | check b' =>
    simp only [ServiceApp.stepStop] at hs
    cases hpc : (app.stops b').pc <;> simp only [hpc, reduceCtorEq] at hs
    cases hs
    rw [ServiceApp.check, happ] at hr
    refine (returned_goto hr).imp_right (fun h => ?_)
    cases h
    exact .inl rfl
  | drop b' =>
    simp only [ServiceApp.stepStop] at hs
    cases hpc : (app.stops b').pc <;> simp only [hpc, reduceCtorEq] at hs
    all_goals
      cases hs
      exact (returned_goto hr).imp_right (fun h => by cases h)
  | drain b' | drainCancelled b' | head b' | launch b' | join b' | joinCancelled b' | finish b' =>
    simp only [ServiceApp.stepStop] at hs
    cases hpc : (app.stops b').pc <;> simp only [hpc, reduceCtorEq] at hs
    all_goals
      have hc := hold (by rw [hpc]; rfl)
      rw [hpc] at hc
      cases hc

/-- A `stop` call that returns is refused, however the application goes on. -/
theorem Stuck.run {cfg : Config} {s t : State} {xs : List Action} (hi : Inv cfg s) (h : Stuck s)
    (hr : (system cfg).run s xs = some t) :
    Inv cfg t ∧ Stuck t ∧ ∀ b r, (t.app.stops b).pc = .returned r →
      (s.app.stops b).pc = .returned r ∨ Refused cfg r := by
  refine System.run_invariant (I := fun t => Inv cfg t ∧ Stuck t ∧
    ∀ b r, (t.app.stops b).pc = .returned r →
      (s.app.stops b).pc = .returned r ∨ Refused cfg r)
    (fun u x v hu hs => ?_) ⟨hi, h, fun _ _ hb => .inl hb⟩ hr
  obtain ⟨hiu, hst, hret⟩ := hu
  obtain ⟨hst', hb⟩ := hst.next hiu hs
  refine ⟨hiu.step hs, hst', fun b r hbr => ?_⟩
  obtain heq | ⟨y, hy⟩ := hb
  · rw [heq] at hbr
    exact hret b r hbr
  · rcases refused_of_starting (ServiceApp.ok_reachable hiu.app)
      (hiu.starting_iff.mpr hst.onWay) hy hbr with hold | hold
    · exact hret b r hold
    · exact .inr hold

/-! ## The result -/

/-- Without a `start` in progress the application is not `Starting`, and a `stop` call that checks
the state is not refused for it. -/
def Releasable (cfg : Config) (s : State) : Prop :=
  (∀ a, (s.starts a).pc.alive = false) →
    s.app.app ≠ .starting ∧
      ∀ b, (((ServiceApp.check cfg s.app b).stops b).pc ≠
        .returned (.error (.resourceAlreadyStarted cfg.name)))

theorem releasable_of_not_starting {cfg : Config} {s : State} (h : s.app.app ≠ .starting) :
    Releasable cfg s := by
  refine fun _ => ⟨h, fun b => ?_⟩
  unfold ServiceApp.check
  cases happ : s.app.app with
  | starting => exact (h happ).elim
  | created | stopped => simp [ServiceApp.State.leave, ServiceApp.State.goto]
  | running | stopping =>
    simp only
    split <;> simp [ServiceApp.State.leave, ServiceApp.State.goto]

/-- **Starting has a start.** As long as every step keeps the call that is on its way, an
application without a `start` in progress can be stopped. A step that loses it leaves an application
that stays `Starting` and refuses every `stop`. -/
theorem starting_has_start (cfg : Config) (s : State)
    (h : (system cfg).Reach (fun s x => loses s x = false) s) :
    Releasable cfg s ∧ ∀ x t, step cfg s x = some t → loses s x = true →
      ∀ xs u, (system cfg).run t xs = some u →
        u.app.app = .starting ∧ (∀ a, (u.starts a).pc.active = false) ∧
        ∀ b r, (u.app.stops b).pc = .returned r →
          (t.app.stops b).pc = .returned r ∨ Refused cfg r := by
  have hi := inv_reachable h.reachable
  refine ⟨?_, fun x t hs hx xs u hr => ?_⟩
  · have hcov : Inv cfg s ∧ (underway s.app.start = true → ∃ a, s.active a = true) := by
      refine System.Reach.invariant (I := fun s => Inv cfg s ∧
        (underway s.app.start = true → ∃ a, s.active a = true))
        ⟨inv_init cfg, fun h => by cases h⟩ (fun s x t hst hx hs => ?_) h
      exact ⟨hst.1.step hs, covered_step hst.1 hst.2 hx hs⟩
    intro hdead
    refine releasable_of_not_starting (fun happ => ?_) hdead
    obtain ⟨a, ha⟩ := hcov.2 (hi.starting_iff.mp happ)
    have hd := hdead a
    rw [State.active] at ha
    cases hpc : (s.starts a).pc <;> simp [hpc, Pc.active, Pc.alive] at ha hd
  · have hstuck : Stuck t := by
      cases (step_effect hi.app hs).1 with
      | enter _ _ _ _ hl | settle _ _ _ _ hl | stay _ _ _ hl =>
        rw [hl] at hx
        cases hx
      | lose a happ ha hact _ =>
        exact ⟨by rw [happ]; exact hi.onWay a ha, hi.none_left ha hact⟩
    obtain ⟨hiu, hsu, hret⟩ := hstuck.run (hi.step hs) hr
    exact ⟨hiu.starting_iff.mpr hsu.onWay, hsu.lost, hret⟩

/-- An application with one storage. -/
def oneStorage : Config where
  name := "service"
  dataSources := 0
  components := 0
  taskPools := 0
  priorityTaskPools := 0
  storages := 1
  dataSinks := 0
  display := fun _ => ""

/-- `start` is dropped by its caller while the storage starts. -/
def droppedStart : List Action :=
  [.start 0 true, .enter 0, .started 0 false, .started 0 false, .drop 0]

theorem droppedStart_runs : ((system oneStorage).run State.init droppedStart).isSome := by
  decide +kernel

/-- The storage waits to be released, no `start` is in progress, and `stop` is refused. -/
theorem dropped_start_stuck :
    ∃ s, (system oneStorage).Reachable s ∧ ¬ Releasable oneStorage s := by
  refine ⟨_, System.reachable_get (S := system oneStorage) droppedStart_runs, fun h => ?_⟩
  have hdead : ∀ a, ((((system oneStorage).run State.init droppedStart).get
      droppedStart_runs).starts a).pc.alive = false := by
    intro a
    cases a <;> rfl
  exact (h hdead).1 rfl

/-- `start` goes through, servers and all. -/
def fullStart : List Action :=
  [.start 0 true, .enter 0, .started 0 false, .started 0 false, .started 0 false,
    .started 0 true, .started 0 true, .allStarted 0, .settle 0 0]

theorem fullStart_runs : (((system oneStorage).restrict fun s x => loses s x = false).run
    State.init fullStart).isSome := by
  decide +kernel

theorem starting_has_start_fullStart :
    ∃ s, (system oneStorage).Reach (fun s x => loses s x = false) s ∧ s.app.app = .running ∧
      Releasable oneStorage s := by
  have hr := System.reachable_get (S := (system oneStorage).restrict fun s x => loses s x = false)
    fullStart_runs
  exact ⟨_, hr.reach, rfl, (starting_has_start oneStorage _ hr.reach).1⟩

end Starting

end ServiceLib
