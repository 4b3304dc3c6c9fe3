import ServiceLib.Runtime.Error
import ServiceLib.Transition

/-!
# Shutdown of a `ServiceApp`

Follows `start_with_admission`, `shutdown_phases`, `drain_server` and `stop` of
`src/runtime/serviceapp.rs`. Shutdown progress lives in a mutex that outlives every `stop` call:
the two server handles, the current phase, and for each job the handle of its spawned task. A
`stop` call holds the mutex from its first check to its return, and may time out or be dropped at
every suspension point; the tasks it has spawned go on running.

Executions of jobs are recorded in the order they are launched, with the call that launched them
and the outcome they ended with, so that what the shutdown has done can be read off the record.
-/

namespace ServiceLib

namespace ServiceApp

/-- The resources a shutdown job stops. -/
inductive JobKind
  | dataSource
  | component
  | taskPool
  | priorityTaskPool
  | delayPool
  | storage
  | parallel
  | dataSink
  | runtimeMetrics
  | metrics
  | tracing
  | logs
  deriving DecidableEq

/-- How many resources the application has, and how errors are displayed. -/
structure Config where
  name : String
  dataSources : ℕ
  components : ℕ
  taskPools : ℕ
  priorityTaskPools : ℕ
  storages : ℕ
  dataSinks : ℕ
  display : RuntimeError → String

/-- `ServiceApp::shutdown_phases`. -/
def shutdownPhases (cfg : Config) : List (List JobKind) :=
  let admission := List.replicate cfg.dataSources .dataSource ++
    List.replicate cfg.components .component
  let runtime := List.replicate cfg.taskPools .taskPool ++
    List.replicate cfg.priorityTaskPools .priorityTaskPool ++ [.delayPool] ++
    List.replicate cfg.storages .storage
  let sinks := List.replicate cfg.dataSinks .dataSink
  [admission, runtime, [.parallel], sinks, [.runtimeMetrics], [.metrics], [.tracing], [.logs]]

/-- A job is known by its phase and its position in it. -/
abbrev JobId := ℕ × ℕ

def kind (cfg : Config) (j : JobId) : Option JobKind :=
  ((shutdownPhases cfg)[j.1]?).bind fun phase => phase[j.2]?

/-- `phases[phase].len()` -/
def size (cfg : Config) (phase : ℕ) : ℕ := (((shutdownPhases cfg)[phase]?).map List.length).getD 0

/-- How a spawned job ends. -/
inductive Outcome
  | ok
  | failed (error : RuntimeError)
  /-- The join error of a panicked task. -/
  | panicked (message : String)
  deriving DecidableEq

/-- The result of joining a job. -/
def Outcome.result : Outcome → RuntimeResult Unit
  | .ok => .ok ()
  | .failed error => .error error
  | .panicked message => .error (.transport message)

/-- A failure that does not permit a retry. -/
def Outcome.fatal (o : Outcome) : Bool := o ≠ .ok ∧ o ≠ .failed .contextCancelled

/-- The jobs whose operation ends with `Ok(())` whatever they do. -/
def JobKind.infallible : JobKind → Bool
  | .taskPool | .priorityTaskPool | .delayPool | .storage | .parallel => true
  | _ => false

/-- The outcomes a job's operation can have. -/
def JobKind.admits (k : JobKind) : Outcome → Bool
  | .failed _ => !k.infallible
  | _ => true

/-- One run of a job's operation, launched by the `stop` call `launcher`. -/
structure Execution where
  job : JobId
  launcher : ℕ
  outcome : Option Outcome
  deriving DecidableEq

/-- The mutable fields of a `ShutdownJob`; `task` names an execution. -/
structure Job where
  task : Option ℕ
  completed : Bool
  deriving DecidableEq

/-- A server task: whether `start` spawned it, how it ended, and whether its handle is still in
the mutex. Both the server's own error and a join error become its text. -/
structure Server where
  spawned : Bool
  outcome : Option (Except String Unit)
  held : Bool

def Server.none : Server := ⟨false, Option.none, false⟩

inductive AppState
  | created
  | starting
  | running
  | stopping
  | stopped
  deriving DecidableEq

/-- Where `start` is. -/
inductive StartPc
  | idle
  | resources
  | grpc
  | http
  | finished
  deriving DecidableEq

/-- Where a `stop` call is. From `checking` to `finishing` it holds the progress mutex. -/
inductive StopPc
  | absent
  | waiting
  | checking
  /-- Joining the gRPC server, then the HTTP server. -/
  | draining (http : Bool)
  | head
  | launching (i : ℕ)
  | joining (i : ℕ)
  | finishing
  | returned (result : RuntimeResult Unit)
  | dropped
  /-- `expect("shutdown job started")` has failed. -/
  | panicked
  deriving DecidableEq

/-- A `stop` call with its context. Ghost: whether something had failed when it was made. -/
structure Stop where
  pc : StopPc
  cancelled : Bool
  late : Bool

structure State where
  app : AppState
  start : StartPc
  grpc : Server
  http : Server
  phase : ℕ
  /-- `phases.is_some()` -/
  initialized : Bool
  jobs : JobId → Job
  failure : Option String
  executions : List Execution
  /-- The holder of the progress mutex. -/
  lock : Option ℕ
  stops : ℕ → Stop

namespace State

def init : State where
  app := .created
  start := .idle
  grpc := .none
  http := .none
  phase := 0
  initialized := false
  jobs := fun _ => ⟨none, false⟩
  failure := none
  executions := []
  lock := none
  stops := fun _ => ⟨.absent, false, false⟩

/-- A job or a server task has failed, with an error other than `ContextCancelled`. -/
def failed (s : State) : Bool :=
  s.executions.any (fun e => e.outcome.any Outcome.fatal) ||
    s.grpc.outcome.any (fun r => r.toBool = false) ||
    s.http.outcome.any (fun r => r.toBool = false)

def goto (s : State) (b : ℕ) (pc : StopPc) : State :=
  { s with stops := Function.update s.stops b { s.stops b with pc := pc } }

/-- A `stop` call ends; the mutex guard is dropped with it. -/
def leave (s : State) (b : ℕ) (pc : StopPc) : State := { s.goto b pc with lock := none }

def server (s : State) : Bool → Server
  | false => s.grpc
  | true => s.http

def setServer (s : State) (sv : Bool) (x : Server) : State :=
  match sv with
  | false => { s with grpc := x }
  | true => { s with http := x }

/-- `*task = None`, after the join. -/
def joinServer (s : State) (sv : Bool) : State := s.setServer sv { s.server sv with held := false }

def setJob (s : State) (j : JobId) (job : Job) : State :=
  { s with jobs := Function.update s.jobs j job }

end State

open State

/-! ## The steps -/

inductive Action
  /-- `start` or `start_graph`: `Created` becomes `Starting`. -/
  | start
  /-- `start_grpc_server` has returned, with or without a server. -/
  | startGrpc (serve : Bool)
  | startHttp (serve : Bool)
  /-- The application is `Running`; after an error, so that it can be stopped. -/
  | started
  | call (b : ℕ)
  | cancel (b : ℕ)
  | lock (b : ℕ)
  /-- The context of a waiting `stop` ended first. -/
  | lockCancelled (b : ℕ)
  | check (b : ℕ)
  | drain (b : ℕ)
  | drainCancelled (b : ℕ)
  | head (b : ℕ)
  | launch (b : ℕ)
  | join (b : ℕ)
  | joinCancelled (b : ℕ)
  | finish (b : ℕ)
  | drop (b : ℕ)
  | endServer (http : Bool) (result : Except String Unit)
  | endJob (x : ℕ) (outcome : Outcome)

/-- The checks made under the state lock, and then of a recorded failure. -/
def check (cfg : Config) (s : State) (b : ℕ) : State :=
  let go (s : State) : State :=
    match s.failure with
    | some error => s.leave b (.returned (.error (.transport error)))
    | none => s.goto b (.draining false)
  match s.app with
  | .stopped => s.leave b (.returned (.ok ()))
  | .created => { s with app := .stopped }.leave b (.returned (.ok ()))
  | .running => go { s with app := .stopping }
  | .stopping => go s
  | .starting => s.leave b (.returned (.error (.resourceAlreadyStarted cfg.name)))

/-- After one server: the next one, or the phases. -/
def afterServer (s : State) (b : ℕ) : Bool → State
  | false => s.goto b (.draining true)
  | true => { s with initialized := true }.goto b .head

/-- `drain_server`, when the task has ended or there is none. -/
def drain (cfg : Config) (s : State) (b : ℕ) (sv : Bool) : Option State :=
  let x := s.server sv
  if x.held then
    match x.outcome with
    | none => none
    | some (.ok ()) => some (afterServer (s.joinServer sv) b sv)
    | some (.error message) =>
      some ({ s.joinServer sv with
        failure := some (cfg.display (.transport message)) }.leave b
          (.returned (.error (.transport message))))
  else some (afterServer s b sv)

/-- `job.task = Some(tokio::spawn((job.operation)(context.clone())))` -/
def spawn (s : State) (b : ℕ) (j : JobId) : State :=
  { s with
    executions := s.executions ++ [Execution.mk j b none]
    jobs := Function.update s.jobs j { s.jobs j with task := some s.executions.length } }

/-- One iteration of the loop that spawns the jobs of the phase. -/
def launch (cfg : Config) (s : State) (b i : ℕ) : State :=
  if i = size cfg s.phase then s.goto b (.joining 0)
  else
    let j : JobId := (s.phase, i)
    let s' := if (s.jobs j).completed = false ∧ (s.jobs j).task = none then spawn s b j else s
    s'.goto b (.launching (i + 1))

/-- One iteration of the loop that joins the jobs of the phase. -/
def join (cfg : Config) (s : State) (b i : ℕ) : Option State :=
  if i = size cfg s.phase then some ({ s with phase := s.phase + 1 }.goto b .head)
  else
    let j : JobId := (s.phase, i)
    if (s.jobs j).completed then some (s.goto b (.joining (i + 1)))
    else
      match (s.jobs j).task with
      | none => some (s.leave b .panicked)
      | some x =>
        match (s.executions[x]?).bind Execution.outcome with
        | none => none
        | some outcome =>
          match outcome.result with
          | .ok () => some ((s.setJob j ⟨none, true⟩).goto b (.joining (i + 1)))
          | .error error =>
            let s := s.setJob j ⟨none, false⟩
            let s := if error = .contextCancelled then s
              else { s with failure := some (cfg.display error) }
            some (s.leave b (.returned (.error error)))

/-- Record how an execution ended. -/
def endExecution (executions : List Execution) (x : ℕ) (outcome : Outcome) : List Execution :=
  executions.modify x fun e => { e with outcome := some outcome }

/-- The steps of a `stop` call. -/
def stepStop (cfg : Config) (s : State) (b : ℕ) : Action → Option State
  | .call _ =>
    match (s.stops b).pc with
    | .absent =>
      some { s with stops := Function.update s.stops b ⟨.waiting, false, s.failed⟩ }
    | _ => none
  | .cancel _ =>
    some { s with stops := Function.update s.stops b { s.stops b with cancelled := true } }
  | .lock _ =>
    match (s.stops b).pc with
    | .waiting => if s.lock = none then some { s.goto b .checking with lock := some b } else none
    | _ => none
  | .lockCancelled _ =>
    match (s.stops b).pc with
    | .waiting =>
      if (s.stops b).cancelled then some (s.goto b (.returned (.error .contextCancelled))) else none
    | _ => none
  | .check _ =>
    match (s.stops b).pc with
    | .checking => some (check cfg s b)
    | _ => none
  | .drain _ =>
    match (s.stops b).pc with
    | .draining sv => drain cfg s b sv
    | _ => none
  | .drainCancelled _ =>
    match (s.stops b).pc with
    | .draining sv =>
      if (s.server sv).held ∧ (s.stops b).cancelled then
        some (s.leave b (.returned (.error .contextCancelled)))
      else none
    | _ => none
  | .head _ =>
    match (s.stops b).pc with
    | .head =>
      if s.phase = (shutdownPhases cfg).length then some (s.goto b .finishing)
      else if (s.stops b).cancelled then some (s.leave b (.returned (.error .contextCancelled)))
      else some (s.goto b (.launching 0))
    | _ => none
  | .launch _ =>
    match (s.stops b).pc with
    | .launching i => some (launch cfg s b i)
    | _ => none
  | .join _ =>
    match (s.stops b).pc with
    | .joining i => join cfg s b i
    | _ => none
  | .joinCancelled _ =>
    match (s.stops b).pc with
    | .joining i =>
      if i < size cfg s.phase ∧ (s.jobs (s.phase, i)).completed = false ∧ (s.stops b).cancelled then
        some (s.leave b (.returned (.error .contextCancelled)))
      else none
    | _ => none
  | .finish _ =>
    match (s.stops b).pc with
    | .finishing => some ({ s with app := .stopped }.leave b (.returned (.ok ())))
    | _ => none
  | .drop _ =>
    match (s.stops b).pc with
    | .waiting => some (s.goto b .dropped)
    | .checking | .draining _ | .joining _ | .finishing => some (s.leave b .dropped)
    | _ => none
  | _ => none

def step (cfg : Config) (s : State) (a : Action) : Option State :=
  match a with
  | .start =>
    if s.app = .created then some { s with app := .starting, start := .resources } else none
  | .startGrpc serve =>
    if s.start = .resources then
      some { s with start := .grpc, grpc := if serve then ⟨true, none, true⟩ else s.grpc }
    else none
  | .startHttp serve =>
    if s.start = .grpc then
      some { s with start := .http, http := if serve then ⟨true, none, true⟩ else s.http }
    else none
  | .started =>
    if s.start = .resources ∨ s.start = .grpc ∨ s.start = .http then
      some { s with app := .running, start := .finished }
    else none
  | .endServer sv result =>
    if (s.server sv).spawned ∧ (s.server sv).outcome.isNone then
      some (s.setServer sv { s.server sv with outcome := some result })
    else none
  | .endJob x outcome =>
    match s.executions[x]? with
    | some ⟨j, _, none⟩ =>
      if (kind cfg j).any (·.admits outcome) then
        some { s with executions := endExecution s.executions x outcome }
      else none
    | _ => none
  | .call b | .cancel b | .lock b | .lockCancelled b | .check b | .drain b | .drainCancelled b
  | .head b | .launch b | .join b | .joinCancelled b | .finish b | .drop b => stepStop cfg s b a

/-- An application under every interleaving of `start`, `stop` calls, tasks and servers. -/
def serviceApp (cfg : Config) : System State Action := ⟨State.init, step cfg⟩

/-! ## The jobs -/

/-- A job has been launched at least once. -/
def Ran (s : State) (j : JobId) : Prop := ∃ (x : ℕ) (e : Execution), s.executions[x]? = some e ∧ e.job = j

/-- What the record of executions says about the jobs. -/
structure JobsOk (cfg : Config) (s : State) : Prop where
  inPhase : ∀ (x : ℕ) (e : Execution), s.executions[x]? = some e → e.job.1 ≤ s.phase ∧ e.job.2 < size cfg e.job.1
  /-- Whatever was launched again has ended with `ContextCancelled` before. -/
  reruns : ∀ (x y : ℕ) (e f : Execution), x < y → s.executions[x]? = some e → s.executions[y]? = some f →
    e.job = f.job → e.outcome = some (.failed .contextCancelled)
  task : ∀ j x, (s.jobs j).task = some x →
    (s.jobs j).completed = false ∧ ∃ e : Execution, s.executions[x]? = some e ∧ e.job = j
  last : ∀ j x y (f : Execution), (s.jobs j).task = some x → s.executions[y]? = some f → f.job = j → y ≤ x
  completed : ∀ j, (s.jobs j).completed = true →
    ∃ (x : ℕ) (e : Execution), s.executions[x]? = some e ∧ e.job = j ∧ e.outcome = some .ok
  /-- A job without a task that is not completed has ended with `ContextCancelled` so far. -/
  idle : ∀ (x : ℕ) (e : Execution), s.executions[x]? = some e → (s.jobs e.job).task = none →
    (s.jobs e.job).completed = false → s.failure = none →
      e.outcome = some (.failed .contextCancelled)
  past : ∀ k < s.phase, ∀ i < size cfg k, (s.jobs (k, i)).completed = true
  bound : s.phase ≤ (shutdownPhases cfg).length
  fresh : s.initialized = false → s.executions = [] ∧ s.phase = 0

theorem jobsOk_init (cfg : Config) : JobsOk cfg State.init where
  inPhase := fun x e h => by simp [State.init] at h
  reruns := fun x y e f _ h => by simp [State.init] at h
  task := fun j x h => by simp [State.init] at h
  last := fun j x y f h => by simp [State.init] at h
  completed := fun j h => by simp [State.init] at h
  idle := fun x e h => by simp [State.init] at h
  past := fun k hk => by simp [State.init] at hk
  bound := Nat.zero_le _
  fresh := fun _ => ⟨rfl, rfl⟩

/-- A completed job has only one execution that did not end with `ContextCancelled`. -/
theorem JobsOk.ok_of_completed {cfg : Config} {s : State} (h : JobsOk cfg s) {x : ℕ}
    {e : Execution} (he : s.executions[x]? = some e) (hc : (s.jobs e.job).completed = true)
    (hne : e.outcome ≠ some (.failed .contextCancelled)) : e.outcome = some .ok := by
  obtain ⟨y, f, hf, hj, ho⟩ := h.completed e.job hc
  rcases Nat.lt_trichotomy x y with hlt | heq | hlt
  · exact absurd (h.reruns x y e f hlt he hf hj.symm) hne
  · subst heq
    rw [he, Option.some.injEq] at hf
    rw [hf, ho]
  · have := h.reruns y x f e hlt hf he hj
    rw [ho] at this
    cases this

/-- A failure nobody has joined yet is still held by its job. -/
theorem JobsOk.held_of_fatal {cfg : Config} {s : State} (h : JobsOk cfg s)
    (hf : s.failure = none) {x : ℕ} {e : Execution} (he : s.executions[x]? = some e)
    (hfatal : e.outcome.any Outcome.fatal = true) : (s.jobs e.job).task = some x := by
  have hne : e.outcome ≠ some (.failed .contextCancelled) := by
    intro hc
    simp [hc, Outcome.fatal] at hfatal
  have hcompleted : (s.jobs e.job).completed = false := by
    by_contra hc
    have := h.ok_of_completed he (by simpa using hc) hne
    simp [this, Outcome.fatal] at hfatal
  cases ht : (s.jobs e.job).task with
  | none => exact absurd (h.idle x e he ht hcompleted hf) hne
  | some z =>
    obtain ⟨-, g, hg, hj⟩ := h.task _ z ht
    rcases Nat.lt_or_eq_of_le (h.last _ z x e ht he rfl) with hlt | heq
    · exact absurd (h.reruns x z e g hlt he hg hj.symm) hne
    · rw [heq]

/-- It is a failure of the current phase. -/
theorem JobsOk.phase_of_fatal {cfg : Config} {s : State} (h : JobsOk cfg s)
    (hf : s.failure = none) {x : ℕ} {e : Execution} (he : s.executions[x]? = some e)
    (hfatal : e.outcome.any Outcome.fatal = true) : e.job.1 = s.phase := by
  obtain ⟨hle, hsize⟩ := h.inPhase x e he
  rcases Nat.lt_or_eq_of_le hle with hlt | heq
  · have hc := h.past e.job.1 hlt e.job.2 hsize
    have := (h.task _ x (h.held_of_fatal hf he hfatal)).1
    rw [this] at hc
    cases hc
  · exact heq

/-! ### The steps that touch the jobs -/

theorem JobsOk.spawn {cfg : Config} {s : State} (h : JobsOk cfg s) (b : ℕ) {i : ℕ}
    (hi : i < size cfg s.phase) (hinit : s.initialized = true) (hf : s.failure = none)
    (hc : (s.jobs (s.phase, i)).completed = false) (ht : (s.jobs (s.phase, i)).task = none) :
    JobsOk cfg (spawn s b (s.phase, i)) := by
  have hget : ∀ x (e : Execution), (s.executions ++ [⟨(s.phase, i), b, none⟩])[x]? = some e →
      s.executions[x]? = some e ∨ (x = s.executions.length ∧ e = ⟨(s.phase, i), b, none⟩) := by
    intro x e he
    rw [List.getElem?_append] at he
    split_ifs at he with hx
    · exact Or.inl he
    · rw [List.getElem?_singleton] at he
      split_ifs at he with hx'
      exact Or.inr ⟨by omega, (Option.some.inj he).symm⟩
  have hkeep : ∀ (x : ℕ) (e : Execution), s.executions[x]? = some e →
      (s.executions ++ [⟨(s.phase, i), b, none⟩])[x]? = some e := by
    intro x e he
    rw [List.getElem?_append_left (List.getElem?_eq_some_iff.1 he).1, he]
  have hlen : ∀ x (e : Execution), s.executions[x]? = some e → x < s.executions.length :=
    fun x e he => (List.getElem?_eq_some_iff.1 he).1
  refine ⟨?_, ?_, ?_, ?_, ?_, ?_, ?_, h.bound, ?_⟩
  · intro x e he
    rcases hget x e he with he | ⟨-, rfl⟩
    · exact h.inPhase x e he
    · exact ⟨le_rfl, hi⟩
  · intro x y e f hxy he hf' hj
    rcases hget x e he with he | ⟨rfl, rfl⟩
    · rcases hget y f hf' with hf' | ⟨-, rfl⟩
      · exact h.reruns x y e f hxy he hf' hj
      · exact h.idle x e he (hj ▸ ht) (hj ▸ hc) hf
    · rcases hget y f hf' with hf' | ⟨rfl, -⟩
      · exact absurd (hlen y f hf') (by omega)
      · exact absurd hxy (lt_irrefl _)
  · intro j x hx
    simp only [ServiceApp.spawn, Function.update_apply] at hx ⊢
    split_ifs at hx ⊢ with hj
    · refine ⟨hc, ⟨(s.phase, i), b, none⟩, ?_, hj.symm⟩
      rw [← Option.some.inj hx]
      exact List.getElem?_concat_length
    · obtain ⟨hnc, e, he, hej⟩ := h.task j x hx
      exact ⟨hnc, e, hkeep x e he, hej⟩
  · intro j x y f hx hy hfj
    simp only [ServiceApp.spawn, Function.update_apply] at hx
    rcases hget y f hy with hy | ⟨rfl, rfl⟩
    · split_ifs at hx with hj
      · rw [← Option.some.inj hx]
        exact (hlen y f hy).le
      · exact h.last j x y f hx hy hfj
    · rw [if_pos hfj.symm] at hx
      exact (Option.some.inj hx).le
  · intro j hj
    simp only [ServiceApp.spawn, Function.update_apply] at hj
    split_ifs at hj with hjj
    · simp [hc] at hj
    · obtain ⟨x, e, he, hej, ho⟩ := h.completed j hj
      exact ⟨x, e, hkeep x e he, hej, ho⟩
  · intro x e he hnone hnc hf'
    simp only [ServiceApp.spawn, Function.update_apply] at hnone hnc
    split_ifs at hnone hnc with hj
    rcases hget x e he with he | ⟨-, rfl⟩
    · exact h.idle x e he hnone hnc hf'
    · exact absurd rfl hj
  · intro k hk i' hi'
    simp only [ServiceApp.spawn]
    rw [Function.update_of_ne]
    · exact h.past k hk i' hi'
    · intro hc'
      exact absurd (congrArg Prod.fst hc' : k = s.phase) (Nat.ne_of_lt hk)
  · intro hfresh
    simp only [ServiceApp.spawn, hinit] at hfresh
    cases hfresh

/-- Joining the task of a job. It is completed if it ended well, and a fatal end is recorded. -/
theorem JobsOk.settle {cfg : Config} {s : State} (h : JobsOk cfg s) {j : JobId} {x : ℕ}
    {e : Execution} (ht : (s.jobs j).task = some x) (he : s.executions[x]? = some e)
    {completed : Bool} (failure : Option String) (hok : completed = true → e.outcome = some .ok)
    (hcc : completed = false → failure = none → e.outcome = some (.failed .contextCancelled))
    (hmono : failure = none → s.failure = none) :
    JobsOk cfg { s.setJob j ⟨none, completed⟩ with failure := failure } := by
  obtain ⟨hnc, e', he', hj⟩ := h.task j x ht
  obtain rfl : e = e' := Option.some.inj (he.symm.trans he')
  refine ⟨h.inPhase, h.reruns, ?_, ?_, ?_, ?_, ?_, h.bound, h.fresh⟩
  · intro j' y hy
    simp only [State.setJob, Function.update_apply] at hy ⊢
    split_ifs at hy ⊢ with hjj
    exact h.task j' y hy
  · intro j' y z f hy hz hf
    simp only [State.setJob, Function.update_apply] at hy
    split_ifs at hy with hjj
    exact h.last j' y z f hy hz hf
  · intro j' hc
    simp only [State.setJob, Function.update_apply] at hc
    split_ifs at hc with hjj
    · exact ⟨x, e, he, hj.trans hjj.symm, hok hc⟩
    · exact h.completed j' hc
  · intro y f hy hnone hc hf
    simp only [State.setJob, Function.update_apply] at hnone hc
    split_ifs at hnone hc with hjj
    · -- Every execution of this job but the last has been cancelled already.
      rcases Nat.lt_or_eq_of_le (h.last j x y f ht hy hjj) with hlt | heq
      · exact h.reruns y x f e hlt hy he (hjj.trans hj.symm)
      · subst heq
        rw [← Option.some.inj (he.symm.trans hy)]
        exact hcc hc hf
    · exact h.idle y f hy hnone hc (hmono hf)
  · intro k hk i hi
    have hpast := h.past k hk i hi
    simp only [State.setJob, Function.update_apply]
    split_ifs with hjj
    · rw [hjj, hnc] at hpast
      cases hpast
    · exact hpast

theorem JobsOk.advance {cfg : Config} {s : State} (h : JobsOk cfg s)
    (hlt : s.phase < (shutdownPhases cfg).length) (hinit : s.initialized = true)
    (hall : ∀ i < size cfg s.phase, (s.jobs (s.phase, i)).completed = true) :
    JobsOk cfg { s with phase := s.phase + 1 } where
  inPhase := fun x e he => ⟨(h.inPhase x e he).1.trans (Nat.le_succ _), (h.inPhase x e he).2⟩
  reruns := h.reruns
  task := h.task
  last := h.last
  completed := h.completed
  idle := h.idle
  past := by
    intro k hk i hi
    rcases Nat.lt_or_eq_of_le (Nat.le_of_lt_succ hk) with hlt | heq
    · exact h.past k hlt i hi
    · subst heq
      exact hall i hi
  bound := hlt
  fresh := fun hf => by
    simp only [hinit] at hf
    cases hf

theorem endExecution_getElem? (executions : List Execution) (x : ℕ) (o : Outcome) (y : ℕ)
    (e : Execution) (he : (endExecution executions x o)[y]? = some e) :
    ∃ e₀, executions[y]? = some e₀ ∧ e₀.job = e.job ∧
      (x = y ∧ e.outcome = some o ∨ x ≠ y ∧ e = e₀) := by
  rw [endExecution, List.getElem?_modify, Option.map_eq_map, Option.map_eq_some_iff] at he
  obtain ⟨e₀, he₀, rfl⟩ := he
  refine ⟨e₀, he₀, ?_, ?_⟩
  · split_ifs <;> rfl
  · by_cases hxy : x = y
    · exact Or.inl ⟨hxy, by rw [if_pos hxy]⟩
    · exact Or.inr ⟨hxy, by rw [if_neg hxy]⟩

theorem getElem?_endExecution (executions : List Execution) (x : ℕ) (o : Outcome) (y : ℕ)
    (e : Execution) (he : executions[y]? = some e) :
    ∃ e', (endExecution executions x o)[y]? = some e' ∧ e'.job = e.job ∧
      (x = y → e'.outcome = some o) ∧ (x ≠ y → e' = e) := by
  refine ⟨if x = y then { e with outcome := some o } else e, ?_, ?_, ?_, ?_⟩
  · rw [endExecution, List.getElem?_modify, he, Option.map_eq_map, Option.map_some]
  · split_ifs <;> rfl
  · intro hxy
    rw [if_pos hxy]
  · intro hxy
    rw [if_neg hxy]

theorem JobsOk.endJob {cfg : Config} {s : State} (h : JobsOk cfg s) {x : ℕ} {e : Execution}
    (he : s.executions[x]? = some e) (hnone : e.outcome = none) (o : Outcome) :
    JobsOk cfg { s with executions := endExecution s.executions x o } := by
  -- The execution that ends was running, so nothing was claimed about its outcome.
  have hx : ∀ y f, s.executions[y]? = some f → f.outcome.isSome → x ≠ y := by
    rintro y f hf hsome rfl
    rw [Option.some.inj (he.symm.trans hf)] at hnone
    simp [hnone] at hsome
  refine ⟨?_, ?_, ?_, ?_, ?_, ?_, h.past, h.bound, ?_⟩
  · intro y f hf
    obtain ⟨f₀, hf₀, hj, -⟩ := endExecution_getElem? _ _ _ _ _ hf
    exact hj ▸ h.inPhase y f₀ hf₀
  · intro y z f g hyz hf hg hj
    obtain ⟨f₀, hf₀, hfj, hfo⟩ := endExecution_getElem? _ _ _ _ _ hf
    obtain ⟨g₀, hg₀, hgj, -⟩ := endExecution_getElem? _ _ _ _ _ hg
    have hold := h.reruns y z f₀ g₀ hyz hf₀ hg₀ (hfj.trans (hj.trans hgj.symm))
    rcases hfo with ⟨hxy, -⟩ | ⟨-, rfl⟩
    · exact absurd hxy (hx y f₀ hf₀ (by simp [hold]))
    · exact hold
  · intro j y hy
    obtain ⟨hc, f, hf, hj⟩ := h.task j y hy
    obtain ⟨f', hf', hj', -⟩ := getElem?_endExecution _ x o _ _ hf
    exact ⟨hc, f', hf', hj'.trans hj⟩
  · intro j y z f hy hf hj
    obtain ⟨f₀, hf₀, hfj, -⟩ := endExecution_getElem? _ _ _ _ _ hf
    exact h.last j y z f₀ hy hf₀ (hfj.trans hj)
  · intro j hc
    obtain ⟨y, f, hf, hj, ho⟩ := h.completed j hc
    obtain ⟨f', hf', hj', -, hne⟩ := getElem?_endExecution _ x o _ _ hf
    exact ⟨y, f', hf', hj'.trans hj, by rw [hne (hx y f hf (by simp [ho])), ho]⟩
  · intro y f hf hnt hnc hfail
    obtain ⟨f₀, hf₀, hfj, hfo⟩ := endExecution_getElem? _ _ _ _ _ hf
    rw [← hfj] at hnt hnc
    have hold := h.idle y f₀ hf₀ hnt hnc hfail
    rcases hfo with ⟨hxy, -⟩ | ⟨-, rfl⟩
    · exact absurd hxy (hx y f₀ hf₀ (by simp [hold]))
    · exact hold
  · intro hf
    have := (h.fresh hf).1
    rw [this] at he
    simp at he

/-! ## The application and its servers -/

structure AppOk (cfg : Config) (s : State) : Prop where
  idle : s.start = .idle → s.app = .created ∨ s.app = .stopped
  starting : s.start = .resources ∨ s.start = .grpc ∨ s.start = .http → s.app = .starting
  started : s.app = .starting ↔ s.start ≠ .idle ∧ s.start ≠ .finished
  created : s.app = .created → s.start = .idle
  early : s.start = .idle ∨ s.start = .resources → s.grpc.spawned = false
  unspawned : ∀ sv, (s.server sv).spawned = false →
    (s.server sv).held = false ∧ (s.server sv).outcome = none
  lateHttp : s.start = .idle ∨ s.start = .resources ∨ s.start = .grpc → s.http.spawned = false
  /-- A server that failed is still to be joined, or its failure is recorded. -/
  failing : ∀ sv m, (s.server sv).outcome = some (.error m) →
    (s.server sv).held = true ∨ s.failure.isSome
  joined : ∀ sv, (s.server sv).spawned = true → (s.server sv).held = false →
    (s.server sv).outcome.isSome
  initialized : s.initialized = true → s.start = .finished ∧ ∀ sv, (s.server sv).held = false
  stopped : s.app = .stopped → s.start = .finished →
    s.initialized = true ∧ s.failure = none ∧ s.phase = (shutdownPhases cfg).length

theorem appOk_init (cfg : Config) : AppOk cfg State.init := by
  constructor <;> simp [State.init, State.server, Server.none]

/-- Servers that are joined without a recorded failure ended well. -/
theorem AppOk.server_ok {cfg : Config} {s : State} (h : AppOk cfg s) (hf : s.failure = none)
    (sv : Bool) (hh : (s.server sv).held = false) :
    (s.server sv).outcome.any (fun r => r.toBool = false) = false ∧
      ((s.server sv).spawned = true → (s.server sv).outcome = some (.ok ())) := by
  cases ho : (s.server sv).outcome with
  | none =>
    refine ⟨rfl, fun hs => ?_⟩
    have := h.joined sv hs hh
    simp [ho] at this
  | some r =>
    cases r with
    | ok u => exact ⟨rfl, fun _ => rfl⟩
    | error m =>
      rcases h.failing sv m ho with hc | hc
      · rw [hh] at hc
        cases hc
      · rw [hf] at hc
        cases hc

/-- When everything is through, nothing has failed. -/
theorem not_failed_of_done {cfg : Config} {s : State} (hj : JobsOk cfg s) (ha : AppOk cfg s)
    (hinit : s.initialized = true) (hf : s.failure = none)
    (hphase : s.phase = (shutdownPhases cfg).length) : s.failed = false := by
  obtain ⟨-, hheld⟩ := ha.initialized hinit
  have hgrpc := (ha.server_ok hf false (hheld false)).1
  have hhttp := (ha.server_ok hf true (hheld true)).1
  have hexec : s.executions.any (fun e => e.outcome.any Outcome.fatal) = false := by
    rw [List.any_eq_false]
    intro e he hfatal
    obtain ⟨x, hx⟩ := List.mem_iff_getElem?.1 he
    have hp := hj.phase_of_fatal hf hx hfatal
    have hsize := (hj.inPhase x e hx).2
    rw [hp, hphase] at hsize
    simp [size] at hsize
  simp only [State.server] at hgrpc hhttp
  rw [State.failed, hexec, hgrpc, hhttp]
  rfl

/-- Nothing can fail before the application is started. -/
theorem not_failed_of_idle {cfg : Config} {s : State} (hj : JobsOk cfg s) (ha : AppOk cfg s)
    (hidle : s.start = .idle) : s.failed = false := by
  have hinit : s.initialized = false := by
    by_contra hc
    have := (ha.initialized (by simpa using hc)).1
    rw [hidle] at this
    cases this
  have hgrpc := (ha.unspawned false (ha.early (Or.inl hidle))).2
  have hhttp := (ha.unspawned true (ha.lateHttp (Or.inl hidle))).2
  simp only [State.server] at hgrpc hhttp
  simp [State.failed, (hj.fresh hinit).1, hgrpc, hhttp]

/-! ## The `stop` calls -/

/-- The program points at which a `stop` call holds the progress mutex. -/
def StopPc.holds : StopPc → Bool
  | .checking | .draining _ | .head | .launching _ | .joining _ | .finishing => true
  | _ => false

/-- Every job of the current phase has been launched. -/
def Begun (cfg : Config) (s : State) : Prop := ∀ i < size cfg s.phase, Ran s (s.phase, i)

/-- A phase that has been touched has been begun completely. -/
def Whole (cfg : Config) (s : State) : Prop :=
  (∃ (x : ℕ) (e : Execution), s.executions[x]? = some e ∧ e.job.1 = s.phase) → Begun cfg s

/-- A job the launch loop has gone past. -/
def Launched (s : State) (j : JobId) : Prop :=
  Ran s j ∧ ((s.jobs j).completed = true ∨ (s.jobs j).task.isSome)

/-- Past the checks: the application is stopping and no failure is recorded. -/
structure Clear (s : State) : Prop where
  app : s.app = .stopping
  start : s.start = .finished
  failure : s.failure = none

/-- What the holder of the mutex knows at each point. -/
def Holding (cfg : Config) (s : State) (late : Bool) : StopPc → Prop
  | .checking => Whole cfg s
  | .draining sv => Clear s ∧ Whole cfg s ∧ (sv = true → s.grpc.held = false)
  | .head => Clear s ∧ Whole cfg s ∧ s.initialized = true
  | .launching i => Clear s ∧ s.initialized = true ∧ s.phase < (shutdownPhases cfg).length ∧
      i ≤ size cfg s.phase ∧ (∀ i' < i, Launched s (s.phase, i')) ∧
      (late = true → Begun cfg s ∧ ∃ (x : ℕ) (e : Execution), s.executions[x]? = some e ∧
        e.job.1 = s.phase ∧ e.outcome.any Outcome.fatal = true)
  | .joining i => Clear s ∧ s.initialized = true ∧ s.phase < (shutdownPhases cfg).length ∧
      i ≤ size cfg s.phase ∧ (∀ i' < size cfg s.phase, Launched s (s.phase, i')) ∧
      (∀ i' < i, (s.jobs (s.phase, i')).completed = true)
  | .finishing => Clear s ∧ Whole cfg s ∧ s.initialized = true ∧
      s.phase = (shutdownPhases cfg).length
  | _ => True

structure StopsOk (cfg : Config) (s : State) : Prop where
  holder : ∀ b, (s.stops b).pc.holds = true → s.lock = some b
  holding : ∀ b, (s.stops b).pc.holds = true → Holding cfg s (s.stops b).late (s.stops b).pc
  free : s.lock = none → Whole cfg s
  held : ∀ b, s.lock = some b → (s.stops b).pc.holds = true
  late : ∀ b, (s.stops b).late = true → s.failed = true
  returned : ∀ b, (s.stops b).pc = .returned (.ok ()) → (s.stops b).late = false

structure Ok (cfg : Config) (s : State) : Prop where
  jobs : JobsOk cfg s
  app : AppOk cfg s
  stops : StopsOk cfg s

theorem stopsOk_init (cfg : Config) : StopsOk cfg State.init := by
  constructor <;> simp [State.init, StopPc.holds, Whole]

/-! ### Moving a `stop` call -/

theorem JobsOk.goto {cfg : Config} {s : State} (h : JobsOk cfg s) (b : ℕ) (pc : StopPc) :
    JobsOk cfg (s.goto b pc) :=
  ⟨h.inPhase, h.reruns, h.task, h.last, h.completed, h.idle, h.past, h.bound, h.fresh⟩

theorem JobsOk.leave {cfg : Config} {s : State} (h : JobsOk cfg s) (b : ℕ) (pc : StopPc) :
    JobsOk cfg (s.leave b pc) :=
  ⟨h.inPhase, h.reruns, h.task, h.last, h.completed, h.idle, h.past, h.bound, h.fresh⟩

theorem server_goto (s : State) (b : ℕ) (pc : StopPc) (sv : Bool) :
    (s.goto b pc).server sv = s.server sv := by
  cases sv <;> rfl

theorem AppOk.goto {cfg : Config} {s : State} (h : AppOk cfg s) (b : ℕ) (pc : StopPc) :
    AppOk cfg (s.goto b pc) :=
  ⟨h.idle, h.starting, h.started, h.created, h.early,
    fun sv => by rw [server_goto]; exact h.unspawned sv, h.lateHttp,
    fun sv => by rw [server_goto]; exact h.failing sv,
    fun sv => by rw [server_goto]; exact h.joined sv,
    fun hi => ⟨(h.initialized hi).1, fun sv => by rw [server_goto]; exact (h.initialized hi).2 sv⟩,
    h.stopped⟩

theorem AppOk.leave {cfg : Config} {s : State} (h : AppOk cfg s) (b : ℕ) (pc : StopPc) :
    AppOk cfg (s.leave b pc) := by
  have hg := h.goto b pc
  exact ⟨hg.idle, hg.starting, hg.started, hg.created, hg.early,
    fun sv => by cases sv; exacts [hg.unspawned false, hg.unspawned true], hg.lateHttp,
    fun sv => by cases sv; exacts [hg.failing false, hg.failing true],
    fun sv => by cases sv; exacts [hg.joined false, hg.joined true],
    fun hi => ⟨(hg.initialized hi).1, fun sv => by
      cases sv; exacts [(hg.initialized hi).2 false, (hg.initialized hi).2 true]⟩, hg.stopped⟩

section Moves

variable {cfg : Config} {s t : State} {b : ℕ} (h : Ok cfg s)
  (hb : (s.stops b).pc.holds = true) (hstops : t.stops = s.stops) (hlock : t.lock = s.lock)
  (hj : JobsOk cfg t) (ha : AppOk cfg t) (hfail : s.failed = true → t.failed = true)

include h hb hstops hlock hj ha hfail

/-- The holder of the mutex goes on to another point. -/
theorem Ok.move {pc : StopPc} (hpc : pc.holds = true)
    (hold : Holding cfg (t.goto b pc) (s.stops b).late pc) : Ok cfg (t.goto b pc) := by
  have hmine := h.stops.holder b hb
  have hpc' : ∀ b', ((t.goto b pc).stops b') =
      if b' = b then { s.stops b with pc := pc } else s.stops b' := by
    intro b'
    simp only [State.goto, hstops, Function.update_apply]
  refine ⟨hj.goto b pc, ha.goto b pc, ⟨?_, ?_, ?_, ?_, ?_, ?_⟩⟩
  · intro b' hb'
    rw [hpc'] at hb'
    split_ifs at hb' with hc
    · exact hlock.trans (hc ▸ hmine)
    · exact hlock.trans (h.stops.holder b' hb')
  · intro b' hb'
    rw [hpc'] at hb' ⊢
    split_ifs at hb' ⊢ with hc
    · exact hold
    · exact absurd (Option.some.inj (hmine.symm.trans (h.stops.holder b' hb'))) (Ne.symm hc)
  · intro hnone
    have : s.lock = none := hlock.symm.trans hnone
    rw [hmine] at this
    cases this
  · intro b' hb'
    have hbb : b' = b := Option.some.inj ((hlock.symm.trans hb').symm.trans hmine)
    rw [hpc', if_pos hbb]
    exact hpc
  · intro b' hl
    rw [hpc'] at hl
    split_ifs at hl with hc
    · exact hfail (h.stops.late b hl)
    · exact hfail (h.stops.late b' hl)
  · intro b' hr
    rw [hpc'] at hr ⊢
    split_ifs at hr ⊢ with hc
    · simp only at hr
      rw [hr] at hpc
      cases hpc
    · exact h.stops.returned b' hr

omit hlock in
/-- The holder of the mutex ends. -/
theorem Ok.exit {pc : StopPc} (hpc : pc.holds = false) (hwhole : Whole cfg t)
    (hret : pc = .returned (.ok ()) → (s.stops b).late = false) : Ok cfg (t.leave b pc) := by
  have hmine := h.stops.holder b hb
  have hpc' : ∀ b', ((t.leave b pc).stops b') =
      if b' = b then { s.stops b with pc := pc } else s.stops b' := by
    intro b'
    simp only [State.leave, State.goto, hstops, Function.update_apply]
  have hnone : ∀ b', ((t.leave b pc).stops b').pc.holds = false := by
    intro b'
    rw [hpc']
    split_ifs with hc
    · exact hpc
    · by_contra hb'
      have := h.stops.holder b' (by simpa using hb')
      exact hc (Option.some.inj (this.symm.trans hmine))
  refine ⟨hj.leave b pc, ha.leave b pc, ⟨?_, ?_, fun _ => hwhole, ?_, ?_, ?_⟩⟩
  · intro b' hb'
    rw [hnone] at hb'
    cases hb'
  · intro b' hb'
    rw [hnone] at hb'
    cases hb'
  · intro b' hb'
    cases hb'
  · intro b' hl
    rw [hpc'] at hl
    split_ifs at hl with hc
    · exact hfail (h.stops.late b hl)
    · exact hfail (h.stops.late b' hl)
  · intro b' hr
    rw [hpc'] at hr ⊢
    split_ifs at hr ⊢ with hc
    · exact hret hr
    · exact h.stops.returned b' hr

end Moves

/-! ### The steps of a `stop` call -/

theorem Ok.check {cfg : Config} {s : State} {b : ℕ} (h : Ok cfg s)
    (hpc : (s.stops b).pc = .checking) : Ok cfg (check cfg s b) := by
  have hb : (s.stops b).pc.holds = true := by rw [hpc]; rfl
  have hwhole : Whole cfg s := by
    have := h.stops.holding b hb
    rwa [hpc] at this
  have hlate : s.start = .idle ∨ s.app = .stopped → (s.stops b).late = false := by
    intro hc
    by_contra hl
    have hfailed := h.stops.late b (by simpa using hl)
    have hidle : s.start = .idle → False := fun hi => by
      rw [not_failed_of_idle h.jobs h.app hi] at hfailed
      cases hfailed
    rcases hc with hc | hc
    · exact hidle hc
    · by_cases hs : s.start = .finished
      · obtain ⟨h₁, h₂, h₃⟩ := h.app.stopped hc hs
        rw [not_failed_of_done h.jobs h.app h₁ h₂ h₃] at hfailed
        cases hfailed
      · by_cases hi : s.start = .idle
        · exact hidle hi
        · have := h.app.started.2 ⟨hi, hs⟩
          rw [hc] at this
          cases this
  -- From `Running` or `Stopping` on, a recorded failure ends the call.
  have hgo : ∀ s' : State, s'.stops = s.stops → s'.lock = s.lock → JobsOk cfg s' → AppOk cfg s' →
      (s.failed = true → s'.failed = true) → Whole cfg s' → s'.app = .stopping →
      s'.start = .finished →
      Ok cfg (match s'.failure with
        | some error => s'.leave b (.returned (.error (.transport error)))
        | none => s'.goto b (.draining false)) := by
    intro s' hst hl hj ha hf hw happ hstart
    cases hfail : s'.failure with
    | some error => exact h.exit hb hst hj ha hf rfl hw (fun hc => nomatch hc)
    | none => exact h.move hb hst hl hj ha hf rfl ⟨⟨happ, hstart, hfail⟩, hw, by simp⟩
  unfold ServiceApp.check
  cases happ : s.app with
  | stopped => exact h.exit hb rfl h.jobs h.app id rfl hwhole fun _ => hlate (Or.inr happ)
  | created =>
    have hidle := h.app.created happ
    refine h.exit hb (t := { s with app := .stopped }) rfl
      ⟨h.jobs.inPhase, h.jobs.reruns, h.jobs.task, h.jobs.last, h.jobs.completed, h.jobs.idle,
        h.jobs.past, h.jobs.bound, h.jobs.fresh⟩ ?_ id rfl hwhole fun _ => hlate (Or.inl hidle)
    have ha := h.app
    exact ⟨fun _ => Or.inr rfl, fun hc => by simp [hidle] at hc, by simp [hidle], by simp,
      ha.early, ha.unspawned, ha.lateHttp, ha.failing, ha.joined, ha.initialized,
      fun _ hc => by simp [hidle] at hc⟩
  | running =>
    have hstart : s.start = .finished := by
      by_contra hc
      by_cases hi : s.start = .idle
      · rcases h.app.idle hi with h' | h' <;> rw [happ] at h' <;> cases h'
      · have := h.app.started.2 ⟨hi, hc⟩
        rw [happ] at this
        cases this
    have ha := h.app
    refine hgo { s with app := .stopping } rfl rfl
      ⟨h.jobs.inPhase, h.jobs.reruns, h.jobs.task, h.jobs.last, h.jobs.completed, h.jobs.idle,
        h.jobs.past, h.jobs.bound, h.jobs.fresh⟩ ?_ id hwhole rfl hstart
    exact ⟨fun hc => by simp [hstart] at hc, fun hc => by simp [hstart] at hc, by simp [hstart],
      by simp, ha.early, ha.unspawned, ha.lateHttp, ha.failing, ha.joined, ha.initialized, by simp⟩
  | stopping =>
    have hstart : s.start = .finished := by
      by_contra hc
      by_cases hi : s.start = .idle
      · rcases h.app.idle hi with h' | h' <;> rw [happ] at h' <;> cases h'
      · have := h.app.started.2 ⟨hi, hc⟩
        rw [happ] at this
        cases this
    exact hgo s rfl rfl h.jobs h.app id hwhole happ hstart
  | starting => exact h.exit hb rfl h.jobs h.app id rfl hwhole (fun hc => nomatch hc)

/-- Joining a server that ended, or finding none. -/
theorem AppOk.release {cfg : Config} {s : State} (h : AppOk cfg s) {sv : Bool}
    {r : Except String Unit} (ho : (s.server sv).outcome = some r)
    (failure : Option String) (hf : ∀ m, r = .error m → failure.isSome)
    (hmono : s.failure.isSome → failure.isSome) (happ : s.app = .stopping) :
    AppOk cfg { s.joinServer sv with failure := failure } := by
  have hserver : ∀ sv', ({ s.joinServer sv with
      failure := failure } : State).server sv' =
      if sv' = sv then { s.server sv with held := false } else s.server sv' := by
    intro sv'
    cases sv <;> cases sv' <;> rfl
  have hsame : (s.joinServer sv).app = s.app ∧
      (s.joinServer sv).start = s.start ∧
      (s.joinServer sv).initialized = s.initialized ∧
      (s.joinServer sv).grpc.spawned = s.grpc.spawned ∧
      (s.joinServer sv).http.spawned = s.http.spawned := by
    cases sv <;> exact ⟨rfl, rfl, rfl, rfl, rfl⟩
  obtain ⟨h₁, h₂, h₃, h₄, h₅⟩ := hsame
  refine ⟨?_, ?_, ?_, ?_, ?_, ?_, ?_, ?_, ?_, ?_, ?_⟩
  · simp only [h₁, h₂]; exact h.idle
  · simp only [h₁, h₂]; exact h.starting
  · simp only [h₁, h₂]; exact h.started
  · simp only [h₁, h₂]; exact h.created
  · simp only [h₂, h₄]; exact h.early
  · intro sv' hs
    rw [hserver] at hs ⊢
    split_ifs at hs ⊢ with hc
    · exact ⟨rfl, (h.unspawned sv hs).2⟩
    · exact h.unspawned sv' hs
  · simp only [h₂, h₅]; exact h.lateHttp
  · intro sv' m hm
    rw [hserver] at hm ⊢
    split_ifs at hm ⊢ with hc
    · exact Or.inr (hf m (Option.some.inj (ho.symm.trans hm)))
    · exact (h.failing sv' m hm).imp_right hmono
  · intro sv' hs hh
    rw [hserver] at hs hh ⊢
    split_ifs at hs hh ⊢ with hc
    · simp [ho]
    · exact h.joined sv' hs hh
  · intro hi
    simp only [h₃] at hi
    refine ⟨?_, fun sv' => ?_⟩
    · simp only [h₂]
      exact (h.initialized hi).1
    · rw [hserver]
      split_ifs
      · rfl
      · exact (h.initialized hi).2 sv'
  · intro hst
    simp only [h₁, happ] at hst
    cases hst

theorem joinServer_fields (s : State) (sv : Bool) :
    (s.joinServer sv).jobs = s.jobs ∧ (s.joinServer sv).executions = s.executions ∧
      (s.joinServer sv).phase = s.phase ∧ (s.joinServer sv).initialized = s.initialized ∧
      (s.joinServer sv).failure = s.failure ∧ (s.joinServer sv).stops = s.stops ∧
      (s.joinServer sv).lock = s.lock ∧ (s.joinServer sv).app = s.app ∧
      (s.joinServer sv).start = s.start := by
  cases sv <;> exact ⟨rfl, rfl, rfl, rfl, rfl, rfl, rfl, rfl, rfl⟩

theorem JobsOk.congr {cfg : Config} {s t : State} (h : JobsOk cfg s) (hjobs : t.jobs = s.jobs)
    (hexec : t.executions = s.executions) (hphase : t.phase = s.phase)
    (hinit : t.initialized = false → s.initialized = false)
    (hfail : t.failure = none → s.failure = none) : JobsOk cfg t := by
  refine ⟨?_, ?_, ?_, ?_, ?_, ?_, ?_, ?_, ?_⟩
  · rw [hexec, hphase]; exact h.inPhase
  · rw [hexec]; exact h.reruns
  · rw [hexec, hjobs]; exact h.task
  · rw [hexec, hjobs]; exact h.last
  · rw [hexec, hjobs]; exact h.completed
  · rw [hexec, hjobs]
    exact fun x e he hn hc hf => h.idle x e he hn hc (hfail hf)
  · rw [hphase, hjobs]; exact h.past
  · rw [hphase]; exact h.bound
  · rw [hexec, hphase]; exact fun hf => h.fresh (hinit hf)

theorem Whole.congr {cfg : Config} {s t : State} (h : Whole cfg s)
    (hexec : t.executions = s.executions) (hphase : t.phase = s.phase) : Whole cfg t := by
  simp only [Whole, Begun, Ran, hexec, hphase]
  exact h

theorem failed_congr {s t : State} (hexec : t.executions = s.executions)
    (hgrpc : t.grpc.outcome = s.grpc.outcome) (hhttp : t.http.outcome = s.http.outcome) :
    t.failed = s.failed := by
  simp only [State.failed, hexec, hgrpc, hhttp]

theorem failed_joinServer (s : State) (sv : Bool) :
    (s.joinServer sv).failed = s.failed := by
  cases sv <;> exact failed_congr rfl rfl rfl

/-- The servers are through: the phases are made. -/
theorem AppOk.markInitialized {cfg : Config} {s : State} (h : AppOk cfg s) (hc : Clear s)
    (hgrpc : s.grpc.held = false) (hhttp : s.http.held = false) :
    AppOk cfg { s with initialized := true } := by
  refine ⟨h.idle, h.starting, h.started, h.created, h.early, h.unspawned, h.lateHttp, h.failing,
    h.joined, fun _ => ⟨hc.start, fun sv => ?_⟩, fun hst => ?_⟩
  · cases sv
    · exact hgrpc
    · exact hhttp
  · have := hc.app.symm.trans hst
    cases this

theorem Ok.afterServer {cfg : Config} {s s' : State} {b : ℕ} {sv : Bool} (h : Ok cfg s)
    (hb : (s.stops b).pc.holds = true) (hstops : s'.stops = s.stops) (hlock : s'.lock = s.lock)
    (hj : JobsOk cfg s') (ha : AppOk cfg s') (hfail : s'.failed = s.failed) (hc : Clear s')
    (hw : Whole cfg s') (hheld : (s'.server sv).held = false)
    (hgrpc : sv = true → s'.grpc.held = false) : Ok cfg (afterServer s' b sv) := by
  cases sv with
  | false =>
    exact h.move hb hstops hlock hj ha (fun hf => hfail.trans hf) rfl
      ⟨⟨hc.app, hc.start, hc.failure⟩, hw, fun _ => hheld⟩
  | true =>
    refine h.move hb (t := { s' with initialized := true }) hstops hlock
      (hj.congr rfl rfl rfl (fun hn => nomatch hn) id) (ha.markInitialized hc (hgrpc rfl) hheld)
      (fun hf => hfail.trans hf) rfl ⟨⟨hc.app, hc.start, hc.failure⟩, hw, rfl⟩

theorem Ok.drain {cfg : Config} {s t : State} {b : ℕ} {sv : Bool} (h : Ok cfg s)
    (hpc : (s.stops b).pc = .draining sv) (hs : drain cfg s b sv = some t) : Ok cfg t := by
  have hb : (s.stops b).pc.holds = true := by rw [hpc]; rfl
  obtain ⟨hc, hw, hgrpc⟩ : Clear s ∧ Whole cfg s ∧ (sv = true → s.grpc.held = false) := by
    have := h.stops.holding b hb
    rwa [hpc] at this
  obtain ⟨h₁, h₂, h₃, h₄, h₅, h₆, h₇, h₈, h₉⟩ := joinServer_fields s sv
  have hgrpc' : sv = true → (s.joinServer sv).grpc.held = false := by
    rintro rfl
    exact hgrpc rfl
  unfold ServiceApp.drain at hs
  by_cases hheld : (s.server sv).held = true
  · simp only [hheld, if_true] at hs
    cases ho : (s.server sv).outcome with
    | none => simp [ho] at hs
    | some r =>
      cases r with
      | ok u =>
        simp only [ho, Option.some.injEq] at hs
        subst hs
        refine h.afterServer hb h₆ h₇ (h.jobs.congr h₁ h₂ h₃ (fun hn => h₄ ▸ hn) fun hn => h₅ ▸ hn)
          ?_ (failed_joinServer s sv) ⟨h₈.trans hc.app, h₉.trans hc.start, h₅.trans hc.failure⟩
          (hw.congr h₂ h₃) (by cases sv <;> rfl) hgrpc'
        have := h.app.release ho s.failure (fun m hm => nomatch hm) id hc.app
        rwa [← h₅] at this
      | error m =>
        simp only [ho, Option.some.injEq] at hs
        subst hs
        refine h.exit hb (t := { s.joinServer sv with
          failure := some (cfg.display (.transport m)) }) h₆
          (h.jobs.congr h₁ h₂ h₃ (fun hn => h₄ ▸ hn) (fun hn => nomatch hn))
          (h.app.release ho _ (fun _ _ => rfl) (fun _ => rfl) hc.app) (fun hf => ?_) rfl
          (hw.congr h₂ h₃) (fun hn => nomatch hn)
        exact (failed_joinServer s sv).trans hf
  · rw [if_neg hheld] at hs
    cases hs
    exact h.afterServer hb rfl rfl h.jobs h.app rfl hc hw (by simpa using hheld) hgrpc

/-- A late `stop` that gets as far as the phases finds the failure in the phase it is about to
continue, and that phase begun. -/
theorem Ok.late_begun {cfg : Config} {s : State} (h : Ok cfg s) (hc : Clear s) (hw : Whole cfg s)
    (hinit : s.initialized = true) (hfailed : s.failed = true) :
    Begun cfg s ∧ ∃ (x : ℕ) (e : Execution), s.executions[x]? = some e ∧ e.job.1 = s.phase ∧
      e.outcome.any Outcome.fatal = true := by
  obtain ⟨-, hheld⟩ := h.app.initialized hinit
  have hgrpc := (h.app.server_ok hc.failure false (hheld false)).1
  have hhttp := (h.app.server_ok hc.failure true (hheld true)).1
  simp only [State.server] at hgrpc hhttp
  rw [State.failed, hgrpc, hhttp, Bool.or_false, Bool.or_false, List.any_eq_true] at hfailed
  obtain ⟨e, he, hfatal⟩ := hfailed
  obtain ⟨x, hx⟩ := List.mem_iff_getElem?.1 he
  have hp := h.jobs.phase_of_fatal hc.failure hx hfatal
  exact ⟨hw ⟨x, e, hx, hp⟩, x, e, hx, hp, hfatal⟩

theorem Ok.head {cfg : Config} {s t : State} {b : ℕ} (h : Ok cfg s)
    (hpc : (s.stops b).pc = .head)
    (hs : (if s.phase = (shutdownPhases cfg).length then some (s.goto b .finishing)
      else if (s.stops b).cancelled then some (s.leave b (.returned (.error .contextCancelled)))
      else some (s.goto b (.launching 0))) = some t) : Ok cfg t := by
  have hb : (s.stops b).pc.holds = true := by rw [hpc]; rfl
  obtain ⟨hc, hw, hinit⟩ : Clear s ∧ Whole cfg s ∧ s.initialized = true := by
    have := h.stops.holding b hb
    rwa [hpc] at this
  have hc' : ∀ pc, Clear (s.goto b pc) := fun pc => ⟨hc.app, hc.start, hc.failure⟩
  split_ifs at hs with hphase <;> cases hs
  · exact h.move hb rfl rfl h.jobs h.app id rfl ⟨hc' _, hw, hinit, hphase⟩
  · exact h.exit hb rfl h.jobs h.app id rfl hw (fun hn => nomatch hn)
  · refine h.move hb rfl rfl h.jobs h.app id rfl ⟨hc' _, hinit, ?_, Nat.zero_le _, ?_, fun hl => ?_⟩
    · exact Nat.lt_of_le_of_ne h.jobs.bound hphase
    · exact fun i' hi' => absurd hi' (Nat.not_lt_zero _)
    · exact h.late_begun hc hw hinit (h.stops.late b hl)

theorem ran_spawn {s : State} {b : ℕ} {j j' : JobId} (h : Ran s j') : Ran (spawn s b j) j' := by
  obtain ⟨x, e, he, hj⟩ := h
  refine ⟨x, e, ?_, hj⟩
  rw [spawn, List.getElem?_append_left (List.getElem?_eq_some_iff.1 he).1, he]

theorem ran_spawn_self (s : State) (b : ℕ) (j : JobId) : Ran (spawn s b j) j :=
  ⟨s.executions.length, _, List.getElem?_concat_length, rfl⟩

theorem launched_spawn {s : State} {b : ℕ} {j j' : JobId} (h : Launched s j') :
    Launched (spawn s b j) j' := by
  refine ⟨ran_spawn h.1, ?_⟩
  simp only [spawn, Function.update_apply]
  split_ifs with hc
  · exact Or.inr rfl
  · exact h.2

theorem Ok.launch {cfg : Config} {s : State} {b i : ℕ} (h : Ok cfg s)
    (hpc : (s.stops b).pc = .launching i) : Ok cfg (launch cfg s b i) := by
  have hb : (s.stops b).pc.holds = true := by rw [hpc]; rfl
  obtain ⟨hc, hinit, hphase, hi, hlaunched, hlate⟩ := by
    have := h.stops.holding b hb
    rw [hpc] at this
    exact this
  unfold ServiceApp.launch
  by_cases hend : i = size cfg s.phase
  · rw [if_pos hend]
    refine h.move hb rfl rfl h.jobs h.app id rfl
      ⟨⟨hc.app, hc.start, hc.failure⟩, hinit, hphase, Nat.zero_le _, ?_, ?_⟩
    · exact fun i' hi' => hlaunched i' (hend ▸ hi')
    · exact fun i' hi' => absurd hi' (Nat.not_lt_zero _)
  rw [if_neg hend]
  have hlt : i < size cfg s.phase := Nat.lt_of_le_of_ne hi hend
  by_cases hfree : (s.jobs (s.phase, i)).completed = false ∧ (s.jobs (s.phase, i)).task = none
  · simp only [if_pos hfree]
    have ha : AppOk cfg (spawn s b (s.phase, i)) :=
      ⟨h.app.idle, h.app.starting, h.app.started, h.app.created, h.app.early, h.app.unspawned,
        h.app.lateHttp, h.app.failing, h.app.joined, h.app.initialized, h.app.stopped⟩
    have hfail : s.failed = true → (spawn s b (s.phase, i)).failed = true := by
      intro hf
      simp only [State.failed, spawn, List.any_append] at hf ⊢
      simp only [Bool.or_eq_true] at hf ⊢
      tauto
    refine h.move hb (t := spawn s b (s.phase, i)) rfl rfl
      (h.jobs.spawn b hlt hinit hc.failure hfree.1 hfree.2) ha hfail rfl
      ⟨⟨hc.app, hc.start, hc.failure⟩, hinit, hphase, hlt, ?_, fun hl => ?_⟩
    · intro i' hi'
      rcases Nat.lt_or_eq_of_le (Nat.le_of_lt_succ hi') with hlt' | rfl
      · exact launched_spawn (hlaunched i' hlt')
      · exact ⟨ran_spawn_self s b _, Or.inr (by simp [spawn, State.goto])⟩
    · obtain ⟨hbegun, x, e, he, hep, hfatal⟩ := hlate hl
      refine ⟨fun i' hi' => ran_spawn (hbegun i' hi'), x, e, ?_, hep, hfatal⟩
      exact (List.getElem?_append_left (List.getElem?_eq_some_iff.1 he).1).trans he
  · simp only [if_neg hfree]
    refine h.move hb rfl rfl h.jobs h.app id rfl
      ⟨⟨hc.app, hc.start, hc.failure⟩, hinit, hphase, hlt, ?_, hlate⟩
    intro i' hi'
    rcases Nat.lt_or_eq_of_le (Nat.le_of_lt_succ hi') with hlt' | rfl
    · exact hlaunched i' hlt'
    · by_cases hcomp : (s.jobs (s.phase, i')).completed = true
      · obtain ⟨x, e, he, hj, -⟩ := h.jobs.completed _ hcomp
        exact ⟨⟨x, e, he, hj⟩, Or.inl hcomp⟩
      · cases ht : (s.jobs (s.phase, i')).task with
        | none => exact absurd ⟨by simpa using hcomp, ht⟩ hfree
        | some x =>
          obtain ⟨-, e, he, hj⟩ := h.jobs.task _ x ht
          exact ⟨⟨x, e, he, hj⟩, Or.inr (by
            change (s.jobs (s.phase, i')).task.isSome = true
            rw [ht]
            rfl)⟩

/-- Shutdown state that is not about the application or its servers may change under `AppOk`
while the application is stopping. -/
theorem AppOk.congr {cfg : Config} {s t : State} (h : AppOk cfg s) (happ : t.app = s.app)
    (hstart : t.start = s.start) (hgrpc : t.grpc = s.grpc) (hhttp : t.http = s.http)
    (hinit : t.initialized = s.initialized) (hfail : s.failure.isSome → t.failure.isSome)
    (hstopping : s.app = .stopping) : AppOk cfg t := by
  have hserver : ∀ sv, t.server sv = s.server sv := by
    intro sv
    cases sv
    · exact hgrpc
    · exact hhttp
  refine ⟨?_, ?_, ?_, ?_, ?_, ?_, ?_, ?_, ?_, ?_, ?_⟩
  · rw [hstart, happ]; exact h.idle
  · rw [hstart, happ]; exact h.starting
  · rw [hstart, happ]; exact h.started
  · rw [hstart, happ]; exact h.created
  · rw [hstart, hgrpc]; exact h.early
  · intro sv; rw [hserver]; exact h.unspawned sv
  · rw [hstart, hhttp]; exact h.lateHttp
  · intro sv m; rw [hserver]; exact fun hm => (h.failing sv m hm).imp_right hfail
  · intro sv; rw [hserver]; exact h.joined sv
  · rw [hinit, hstart]
    exact fun hi => ⟨(h.initialized hi).1, fun sv => by rw [hserver]; exact (h.initialized hi).2 sv⟩
  · rw [happ, hstopping]
    exact (fun hn => nomatch hn)

theorem Ok.join {cfg : Config} {s t : State} {b i : ℕ} (h : Ok cfg s)
    (hpc : (s.stops b).pc = .joining i) (hs : join cfg s b i = some t) : Ok cfg t := by
  have hb : (s.stops b).pc.holds = true := by rw [hpc]; rfl
  obtain ⟨hc, hinit, hphase, hi, hlaunched, hdone⟩ := by
    have := h.stops.holding b hb
    rw [hpc] at this
    exact this
  have hwhole : Whole cfg s := fun _ i' hi' => (hlaunched i' hi').1
  unfold ServiceApp.join at hs
  by_cases hend : i = size cfg s.phase
  · rw [if_pos hend] at hs
    cases hs
    subst hend
    refine h.move hb (t := { s with phase := s.phase + 1 }) rfl rfl
      (h.jobs.advance hphase hinit hdone) (h.app.congr rfl rfl rfl rfl rfl id hc.app) id rfl
      ⟨⟨hc.app, hc.start, hc.failure⟩, ?_, hinit⟩
    rintro ⟨x, e, he, hep⟩
    have hle := (h.jobs.inPhase x e he).1
    rw [hep] at hle
    exact absurd hle (Nat.not_succ_le_self _)
  rw [if_neg hend] at hs
  have hlt : i < size cfg s.phase := Nat.lt_of_le_of_ne hi hend
  by_cases hcomp : (s.jobs (s.phase, i)).completed = true
  · simp only [hcomp, if_true, Option.some.injEq] at hs
    subst hs
    refine h.move hb rfl rfl h.jobs h.app id rfl
      ⟨⟨hc.app, hc.start, hc.failure⟩, hinit, hphase, hlt, hlaunched, fun i' hi' => ?_⟩
    rcases Nat.lt_or_eq_of_le (Nat.le_of_lt_succ hi') with hlt' | rfl
    · exact hdone i' hlt'
    · exact hcomp
  simp only [if_neg hcomp] at hs
  cases ht : (s.jobs (s.phase, i)).task with
  | none =>
    have := (hlaunched i hlt).2
    simp [hcomp, ht] at this
  | some x =>
    obtain ⟨-, e, he, hj⟩ := h.jobs.task _ x ht
    simp only [ht, he, Option.bind_some] at hs
    cases ho : e.outcome with
    | none => simp [ho] at hs
    | some o =>
      simp only [ho] at hs
      have hfail : ∀ (c : Bool) (f : Option String),
          ({ s.setJob (s.phase, i) ⟨none, c⟩ with failure := f } : State).failed = s.failed :=
        fun c f => failed_congr rfl rfl rfl
      cases hr : o.result with
      | ok u =>
        simp only [hr, Option.some.injEq] at hs
        subst hs
        have hok : o = .ok := by cases o <;> simp [Outcome.result] at hr ⊢
        refine h.move hb (t := s.setJob (s.phase, i) ⟨none, true⟩) rfl rfl
          (h.jobs.settle ht he s.failure (fun _ => by rw [ho, hok])
            (fun hn => nomatch hn) id)
          (h.app.congr rfl rfl rfl rfl rfl id hc.app) (fun hf => hf) rfl
          ⟨⟨hc.app, hc.start, hc.failure⟩, hinit, hphase, hlt, fun i' hi' => ?_, fun i' hi' => ?_⟩
        · refine ⟨(hlaunched i' hi').1, ?_⟩
          change (Function.update s.jobs (s.phase, i) ⟨none, true⟩ (s.phase, i')).completed = true ∨
            (Function.update s.jobs (s.phase, i) ⟨none, true⟩ (s.phase, i')).task.isSome = true
          rw [Function.update_apply]
          split_ifs
          · exact Or.inl rfl
          · exact (hlaunched i' hi').2
        · change (Function.update s.jobs (s.phase, i) ⟨none, true⟩ (s.phase, i')).completed = true
          rw [Function.update_apply]
          split_ifs with hii
          · rfl
          · refine hdone i' (Nat.lt_of_le_of_ne (Nat.le_of_lt_succ hi') fun hc' => hii ?_)
            rw [hc']
      | error error =>
        simp only [hr, Option.some.injEq] at hs
        by_cases hcc : error = .contextCancelled
        · rw [if_pos hcc] at hs
          subst hs
          have hok : o = .failed .contextCancelled := by
            cases o <;> simp [Outcome.result] at hr
            · rw [hr, hcc]
            · rw [← hr] at hcc
              cases hcc
          exact h.exit hb (t := s.setJob (s.phase, i) ⟨none, false⟩) rfl
            (h.jobs.settle ht he s.failure (fun hn => nomatch hn)
              (fun _ _ => by rw [ho, hok]) id)
            (h.app.congr rfl rfl rfl rfl rfl id hc.app) (fun hf => hf) rfl hwhole
            (fun hn => nomatch hn)
        · rw [if_neg hcc] at hs
          subst hs
          exact h.exit hb (t := { s.setJob (s.phase, i) ⟨none, false⟩ with
              failure := some (cfg.display error) }) rfl
            (h.jobs.settle ht he _ (fun hn => nomatch hn) (fun _ hn => nomatch hn)
              (fun hn => nomatch hn))
            (h.app.congr rfl rfl rfl rfl rfl (fun _ => rfl) hc.app)
            (fun hf => (hfail false _).trans hf) rfl hwhole (fun hn => nomatch hn)

/-! ### What others do meanwhile -/

/-- The same executions were launched, and those that failed still have. -/
structure SameRuns (s t : State) : Prop where
  ran : ∀ j, Ran s j → Ran t j
  touched : ∀ (x : ℕ) (e : Execution), t.executions[x]? = some e →
    ∃ e₀, s.executions[x]? = some e₀ ∧ e₀.job = e.job
  fatal : ∀ (x : ℕ) (e : Execution), s.executions[x]? = some e →
    e.outcome.any Outcome.fatal = true →
      ∃ e', t.executions[x]? = some e' ∧ e'.job = e.job ∧ e'.outcome.any Outcome.fatal = true

theorem SameRuns.of_eq {s t : State} (h : t.executions = s.executions) : SameRuns s t where
  ran := by simp only [Ran, h]; exact fun _ => id
  touched := fun x e he => ⟨e, h ▸ he, rfl⟩
  fatal := fun x e he hf => ⟨e, by rw [h, he], rfl, hf⟩

theorem Whole.frame {cfg : Config} {s t : State} (h : Whole cfg s) (hr : SameRuns s t)
    (hphase : t.phase = s.phase) : Whole cfg t := by
  rintro ⟨x, e, he, hep⟩ i hi
  rw [hphase] at hep hi ⊢
  obtain ⟨e₀, he₀, hj⟩ := hr.touched x e he
  exact hr.ran _ (h ⟨x, e₀, he₀, hj ▸ hep⟩ i hi)

theorem Holding.frame {cfg : Config} {s t : State} {late : Bool} {pc : StopPc}
    (h : Holding cfg s late pc) (hr : SameRuns s t) (hphase : t.phase = s.phase)
    (hinit : t.initialized = s.initialized) (hjobs : t.jobs = s.jobs)
    (hclear : Clear s → Clear t) (hgrpc : s.grpc.held = false → t.grpc.held = false) :
    Holding cfg t late pc := by
  have hlaunched : ∀ j, Launched s j → Launched t j := by
    intro j hj
    exact ⟨hr.ran j hj.1, by rw [hjobs]; exact hj.2⟩
  cases pc with
  | checking => exact Whole.frame h hr hphase
  | draining sv => exact ⟨hclear h.1, h.2.1.frame hr hphase, fun hsv => hgrpc (h.2.2 hsv)⟩
  | head => exact ⟨hclear h.1, h.2.1.frame hr hphase, hinit.trans h.2.2⟩
  | launching i =>
    obtain ⟨hc, hi, hp, hle, hl, hlate⟩ := h
    refine ⟨hclear hc, hinit.trans hi, ?_, ?_, ?_, fun hla => ?_⟩
    · rw [hphase]; exact hp
    · rw [hphase]; exact hle
    · rw [hphase]; exact fun i' hi' => hlaunched _ (hl i' hi')
    · obtain ⟨hb, x, e, he, hep, hf⟩ := hlate hla
      obtain ⟨e', he', hj', hf'⟩ := hr.fatal x e he hf
      refine ⟨fun i' hi' => ?_, x, e', he', ?_, hf'⟩
      · rw [hphase] at hi' ⊢
        exact hr.ran _ (hb i' hi')
      · rw [hj', hphase, hep]
  | joining i =>
    obtain ⟨hc, hi, hp, hle, hl, hd⟩ := h
    refine ⟨hclear hc, hinit.trans hi, ?_, ?_, ?_, ?_⟩
    · rw [hphase]; exact hp
    · rw [hphase]; exact hle
    · rw [hphase]; exact fun i' hi' => hlaunched _ (hl i' hi')
    · rw [hphase, hjobs]; exact hd
  | finishing =>
    exact ⟨hclear h.1, h.2.1.frame hr hphase, hinit.trans h.2.2.1, hphase.trans h.2.2.2⟩
  | absent | waiting | returned _ | dropped | panicked => trivial

/-- A step outside the `stop` calls. -/
theorem StopsOk.frame {cfg : Config} {s t : State} (h : StopsOk cfg s)
    (hstops : t.stops = s.stops) (hlock : t.lock = s.lock) (hr : SameRuns s t)
    (hphase : t.phase = s.phase) (hinit : t.initialized = s.initialized) (hjobs : t.jobs = s.jobs)
    (hclear : Clear s → Clear t) (hgrpc : Clear s → s.grpc.held = false → t.grpc.held = false)
    (hfail : s.failed = true → t.failed = true) : StopsOk cfg t := by
  refine ⟨?_, ?_, ?_, ?_, ?_, ?_⟩
  · rw [hstops, hlock]; exact h.holder
  · rw [hstops]
    intro b hb
    have hold := h.holding b hb
    by_cases hc : Clear s
    · exact hold.frame hr hphase hinit hjobs hclear (hgrpc hc)
    · -- Everything past the checks is clear.
      cases hpc : (s.stops b).pc with
      | checking =>
        rw [hpc] at hold
        exact Whole.frame hold hr hphase
      | draining _ | head | launching _ | joining _ | finishing =>
        rw [hpc] at hold
        exact absurd hold.1 hc
      | absent | waiting | returned _ | dropped | panicked => trivial
  · rw [hlock]
    exact fun hn => (h.free hn).frame hr hphase
  · rw [hstops, hlock]; exact h.held
  · rw [hstops]; exact fun b hl => hfail (h.late b hl)
  · rw [hstops]; exact h.returned

/-- A `stop` call that does not hold the mutex changes, or only its context does. -/
theorem Ok.touch {cfg : Config} {s : State} (h : Ok cfg s) (b : ℕ) (q : Stop)
    (hq : q.pc = (s.stops b).pc ∧ q.late = (s.stops b).late ∨
      (s.stops b).pc.holds = false ∧ q.pc.holds = false ∧ (q.late = true → s.failed = true) ∧
        q.pc ≠ .returned (.ok ())) :
    Ok cfg { s with stops := Function.update s.stops b q } := by
  refine ⟨h.jobs.congr rfl rfl rfl id id, ?_, ?_⟩
  · exact ⟨h.app.idle, h.app.starting, h.app.started, h.app.created, h.app.early, h.app.unspawned,
      h.app.lateHttp, h.app.failing, h.app.joined, h.app.initialized, h.app.stopped⟩
  · have hholds : q.pc.holds = (s.stops b).pc.holds := by
      rcases hq with hq | hq
      · rw [hq.1]
      · rw [hq.1, hq.2.1]
    have hs := h.stops
    refine ⟨?_, ?_, hs.free, ?_, ?_, ?_⟩
    · intro b' hb'
      simp only [Function.update_apply] at hb'
      split_ifs at hb' with hc
      · exact hc ▸ hs.holder b (hholds ▸ hb')
      · exact hs.holder b' hb'
    · intro b' hb'
      simp only [Function.update_apply] at hb' ⊢
      split_ifs at hb' ⊢ with hc
      · rcases hq with hq | hq
        · rw [hq.1] at hb'
          rw [hq.1, hq.2]
          exact (hs.holding b hb').frame (.of_eq rfl) rfl rfl rfl
            (fun hc => ⟨hc.app, hc.start, hc.failure⟩) id
        · rw [hq.2.1] at hb'
          cases hb'
      · exact (hs.holding b' hb').frame (.of_eq rfl) rfl rfl rfl
          (fun hc => ⟨hc.app, hc.start, hc.failure⟩) id
    · intro b' hb'
      simp only [Function.update_apply]
      split_ifs with hc
      · rw [hholds]
        exact hc ▸ hs.held b' hb'
      · exact hs.held b' hb'
    · intro b' hl
      simp only [Function.update_apply] at hl
      split_ifs at hl with hc
      · rcases hq with hq | hq
        · exact hs.late b (hq.2 ▸ hl)
        · exact hq.2.2.1 hl
      · exact hs.late b' hl
    · intro b' hr
      simp only [Function.update_apply] at hr ⊢
      split_ifs at hr ⊢ with hc
      · rcases hq with hq | hq
        · rw [hq.2]
          exact hs.returned b (hq.1 ▸ hr)
        · exact absurd hr hq.2.2.2
      · exact hs.returned b' hr

theorem Ok.lock {cfg : Config} {s : State} {b : ℕ} (h : Ok cfg s) (hnone : s.lock = none) :
    Ok cfg { s.goto b .checking with lock := some b } := by
  have hs := h.stops
  have hnobody : ∀ b', (s.stops b').pc.holds = false := by
    intro b'
    by_contra hc
    have := hs.holder b' (by simpa using hc)
    rw [hnone] at this
    cases this
  refine ⟨h.jobs.congr rfl rfl rfl id id, ?_, ?_, ?_, (fun hn => nomatch hn), ?_, ?_, ?_⟩
  · exact ⟨h.app.idle, h.app.starting, h.app.started, h.app.created, h.app.early, h.app.unspawned,
      h.app.lateHttp, h.app.failing, h.app.joined, h.app.initialized, h.app.stopped⟩
  · intro b' hb'
    simp only [State.goto, Function.update_apply] at hb'
    split_ifs at hb' with hc
    · rw [hc]
    · rw [hnobody] at hb'
      cases hb'
  · intro b' hb'
    simp only [State.goto, Function.update_apply] at hb' ⊢
    split_ifs at hb' ⊢ with hc
    · exact hs.free hnone
    · rw [hnobody] at hb'
      cases hb'
  · intro b' hb'
    simp only [State.goto, Function.update_apply]
    rw [if_pos (Option.some.inj hb').symm]
    rfl
  · intro b' hl
    simp only [State.goto, Function.update_apply] at hl
    split_ifs at hl with hc
    · exact hs.late b hl
    · exact hs.late b' hl
  · intro b' hr
    simp only [State.goto, Function.update_apply] at hr ⊢
    split_ifs at hr ⊢
    exact hs.returned b' hr

/-- The mutex guard of a call whose future ends at a suspension point. -/
theorem Ok.abort {cfg : Config} {s : State} {b : ℕ} (h : Ok cfg s) {pc : StopPc}
    (hb : (s.stops b).pc.holds = true) (hnot : ∀ i, (s.stops b).pc ≠ .launching i)
    (hpc : pc.holds = false) (hret : pc ≠ .returned (.ok ())) : Ok cfg (s.leave b pc) := by
  have hwhole : Whole cfg s := by
    have hold := h.stops.holding b hb
    cases hp : (s.stops b).pc with
    | checking =>
      rw [hp] at hold
      exact hold
    | draining _ | head | finishing =>
      rw [hp] at hold
      exact hold.2.1
    | launching i => exact absurd hp (hnot i)
    | joining i =>
      rw [hp] at hold
      exact fun _ i' hi' => (hold.2.2.2.2.1 i' hi').1
    | absent | waiting | returned _ | dropped | panicked =>
      rw [hp] at hb
      cases hb
  exact h.exit hb rfl h.jobs h.app id hpc hwhole fun hc => absurd hc hret

theorem Ok.finish {cfg : Config} {s : State} {b : ℕ} (h : Ok cfg s)
    (hpc : (s.stops b).pc = .finishing) :
    Ok cfg ({ s with app := .stopped }.leave b (.returned (.ok ()))) := by
  have hb : (s.stops b).pc.holds = true := by rw [hpc]; rfl
  obtain ⟨hc, hw, hinit, hphase⟩ := by
    have := h.stops.holding b hb
    rw [hpc] at this
    exact this
  have ha := h.app
  refine h.exit hb (t := { s with app := .stopped }) rfl (h.jobs.congr rfl rfl rfl id id) ?_ id rfl
    hw fun _ => ?_
  · exact ⟨fun _ => Or.inr rfl, fun hn => by simp [hc.start] at hn, by simp [hc.start], by simp,
      ha.early, ha.unspawned, ha.lateHttp, ha.failing, ha.joined, ha.initialized,
      fun _ _ => ⟨hinit, hc.failure, hphase⟩⟩
  · by_contra hl
    have := h.stops.late b (by simpa using hl)
    rw [not_failed_of_done h.jobs h.app hinit hc.failure hphase] at this
    cases this

theorem Ok.stepStop {cfg : Config} {s t : State} {b : ℕ} {a : Action} (h : Ok cfg s)
    (hs : stepStop cfg s b a = some t) : Ok cfg t := by
  unfold ServiceApp.stepStop at hs
  cases a with
  | call _ =>
    cases hpc : (s.stops b).pc <;> simp only [hpc, reduceCtorEq] at hs
    cases hs
    exact h.touch b _ (Or.inr ⟨by rw [hpc]; rfl, rfl, id, by simp⟩)
  | cancel _ =>
    cases hs
    exact h.touch b _ (Or.inl ⟨rfl, rfl⟩)
  | lock _ =>
    cases hpc : (s.stops b).pc <;> simp only [hpc, reduceCtorEq] at hs
    split_ifs at hs with hnone
    cases hs
    exact h.lock hnone
  | lockCancelled _ =>
    cases hpc : (s.stops b).pc <;> simp only [hpc, reduceCtorEq] at hs
    split_ifs at hs
    cases hs
    exact h.touch b _ (Or.inr ⟨by rw [hpc]; rfl, rfl, h.stops.late b, by simp⟩)
  | check _ =>
    cases hpc : (s.stops b).pc <;> simp only [hpc, reduceCtorEq] at hs
    cases hs
    exact h.check hpc
  | drain _ =>
    cases hpc : (s.stops b).pc <;> simp only [hpc, reduceCtorEq] at hs
    exact h.drain hpc hs
  | drainCancelled _ =>
    cases hpc : (s.stops b).pc <;> simp only [hpc, reduceCtorEq] at hs
    split_ifs at hs
    cases hs
    exact h.abort (by rw [hpc]; rfl) (by simp [hpc]) rfl (by simp)
  | head _ =>
    cases hpc : (s.stops b).pc <;> simp only [hpc, reduceCtorEq] at hs
    exact h.head hpc hs
  | launch _ =>
    cases hpc : (s.stops b).pc <;> simp only [hpc, reduceCtorEq] at hs
    cases hs
    exact h.launch hpc
  | join _ =>
    cases hpc : (s.stops b).pc <;> simp only [hpc, reduceCtorEq] at hs
    exact h.join hpc hs
  | joinCancelled _ =>
    cases hpc : (s.stops b).pc <;> simp only [hpc, reduceCtorEq] at hs
    split_ifs at hs
    cases hs
    exact h.abort (by rw [hpc]; rfl) (by simp [hpc]) rfl (by simp)
  | finish _ =>
    cases hpc : (s.stops b).pc <;> simp only [hpc, reduceCtorEq] at hs
    cases hs
    exact h.finish hpc
  | drop _ =>
    cases hpc : (s.stops b).pc <;> simp only [hpc, reduceCtorEq] at hs
    case waiting =>
      cases hs
      exact h.touch b _ (Or.inr ⟨by rw [hpc]; rfl, rfl, h.stops.late b, by simp⟩)
    all_goals
      cases hs
      exact h.abort (by rw [hpc]; rfl) (by simp [hpc]) rfl (by simp)
  | _ => cases hs

/-! ### The steps of the environment -/

theorem failed_endExecution {s : State} {x : ℕ} {e : Execution} (he : s.executions[x]? = some e)
    (hnone : e.outcome = none) (o : Outcome) (hf : s.failed = true) :
    ({ s with executions := endExecution s.executions x o } : State).failed = true := by
  simp only [State.failed, Bool.or_eq_true, List.any_eq_true] at hf ⊢
  refine hf.imp_left fun hf => hf.imp_left ?_
  rintro ⟨f, hf, hfatal⟩
  obtain ⟨y, hy⟩ := List.mem_iff_getElem?.1 hf
  obtain ⟨f', hf', -, -, hne⟩ := getElem?_endExecution s.executions x o y f hy
  refine ⟨f', List.mem_iff_getElem?.2 ⟨y, hf'⟩, ?_⟩
  rw [hne ?_]
  · exact hfatal
  · rintro rfl
    rw [he, Option.some.injEq] at hy
    rw [← hy, hnone] at hfatal
    cases hfatal

theorem sameRuns_endExecution {s : State} {x : ℕ} {e : Execution}
    (he : s.executions[x]? = some e) (hnone : e.outcome = none) (o : Outcome) :
    SameRuns s { s with executions := endExecution s.executions x o } where
  ran := by
    rintro j ⟨y, f, hf, hj⟩
    obtain ⟨f', hf', hj', -⟩ := getElem?_endExecution s.executions x o y f hf
    exact ⟨y, f', hf', hj'.trans hj⟩
  touched := by
    intro y f hf
    obtain ⟨f₀, hf₀, hj, -⟩ := endExecution_getElem? _ _ _ _ _ hf
    exact ⟨f₀, hf₀, hj⟩
  fatal := by
    intro y f hf hfatal
    obtain ⟨f', hf', hj', -, hne⟩ := getElem?_endExecution s.executions x o y f hf
    have hxy : x ≠ y := by
      rintro rfl
      rw [he, Option.some.injEq] at hf
      rw [← hf, hnone] at hfatal
      cases hfatal
    exact ⟨f', hf', hj', by rw [hne hxy]; exact hfatal⟩

/-- A server task ends. -/
theorem AppOk.endServer {cfg : Config} {s : State} (h : AppOk cfg s) {sv : Bool}
    (hspawned : (s.server sv).spawned = true) (hnone : (s.server sv).outcome = none)
    (r : Except String Unit) :
    AppOk cfg (s.setServer sv { s.server sv with outcome := some r }) := by
  have hserver : ∀ sv', (s.setServer sv { s.server sv with outcome := some r }).server sv' =
      if sv' = sv then { s.server sv with outcome := some r } else s.server sv' := by
    intro sv'
    cases sv <;> cases sv' <;> rfl
  have hsame : ∀ t, t = s.setServer sv { s.server sv with outcome := some r } →
      t.app = s.app ∧ t.start = s.start ∧ t.initialized = s.initialized ∧ t.failure = s.failure ∧
      t.phase = s.phase ∧ t.grpc.spawned = s.grpc.spawned ∧ t.http.spawned = s.http.spawned := by
    rintro t rfl
    cases sv <;> exact ⟨rfl, rfl, rfl, rfl, rfl, rfl, rfl⟩
  -- A task that is not over has not been joined.
  have hheld : (s.server sv).held = true := by
    by_contra hc
    have := h.joined sv hspawned (by simpa using hc)
    simp [hnone] at this
  generalize ht : s.setServer sv { s.server sv with outcome := some r } = t at hserver hsame ⊢
  obtain ⟨h₁, h₂, h₃, h₄, h₅, h₆, h₇⟩ := hsame t rfl
  refine ⟨?_, ?_, ?_, ?_, ?_, ?_, ?_, ?_, ?_, ?_, ?_⟩
  · rw [h₁, h₂]; exact h.idle
  · rw [h₁, h₂]; exact h.starting
  · rw [h₁, h₂]; exact h.started
  · rw [h₁, h₂]; exact h.created
  · rw [h₂, h₆]; exact h.early
  · intro sv' hs
    rw [hserver] at hs ⊢
    split_ifs at hs ⊢ with hc
    · rw [hspawned] at hs
      cases hs
    · exact h.unspawned sv' hs
  · rw [h₂, h₇]; exact h.lateHttp
  · intro sv' m hm
    rw [hserver] at hm ⊢
    rw [h₄]
    split_ifs at hm ⊢ with hc
    · exact Or.inl hheld
    · exact h.failing sv' m hm
  · intro sv' hs hh
    rw [hserver] at hs hh ⊢
    split_ifs at hs hh ⊢ with hc
    · rfl
    · exact h.joined sv' hs hh
  · intro hi
    rw [h₃] at hi
    have := (h.initialized hi).2 sv
    rw [hheld] at this
    cases this
  · rw [h₁, h₂, h₃, h₄, h₅]; exact h.stopped

/-- A step of `start`: no `stop` call is past its checks while it runs. -/
theorem Ok.starting {cfg : Config} {s t : State} (h : Ok cfg s) (hstops : t.stops = s.stops)
    (hlock : t.lock = s.lock) (hjobs : t.jobs = s.jobs) (hexec : t.executions = s.executions)
    (hphase : t.phase = s.phase) (hinit : t.initialized = s.initialized)
    (hfail : t.failure = s.failure) (hnot : s.app ≠ .stopping)
    (hfailed : s.failed = true → t.failed = true) (ha : AppOk cfg t) : Ok cfg t :=
  ⟨h.jobs.congr hjobs hexec hphase (fun hn => hinit ▸ hn) (fun hn => hfail ▸ hn), ha,
    h.stops.frame hstops hlock (.of_eq hexec) hphase hinit hjobs (fun hc => absurd hc.app hnot)
      (fun hc => absurd hc.app hnot) hfailed⟩

theorem Ok.step {cfg : Config} {s t : State} {a : Action} (h : Ok cfg s)
    (hs : step cfg s a = some t) : Ok cfg t := by
  have ha := h.app
  unfold ServiceApp.step at hs
  cases a with
  | start =>
    simp only at hs
    split_ifs at hs with happ
    cases hs
    have hidle := ha.created happ
    refine h.starting rfl rfl rfl rfl rfl rfl rfl (by simp [happ]) id ?_
    refine ⟨by simp, by simp, by simp, by simp, fun _ => ha.early (Or.inl hidle), ha.unspawned,
      fun _ => ha.lateHttp (Or.inl hidle), ha.failing, ha.joined, fun hi => ?_, by simp⟩
    have := (ha.initialized hi).1
    rw [hidle] at this
    cases this
  | startGrpc serve =>
    simp only at hs
    split_ifs at hs with hst
    all_goals
      have happ := ha.starting (Or.inl hst)
      have hinit : s.initialized = false := by
        by_contra hc
        have := (ha.initialized (by simpa using hc)).1
        rw [hst] at this
        cases this
      have hun := ha.unspawned false (ha.early (Or.inr hst))
      cases hs
      refine h.starting rfl rfl rfl rfl rfl rfl rfl (by simp [happ]) ?_ ?_
    · intro hf
      rw [← hf]
      exact failed_congr rfl hun.2.symm rfl
    · refine ⟨by simp, fun _ => happ, by simp [happ], by simp [happ], by simp, ?_,
        fun _ => ha.lateHttp (Or.inr (Or.inl hst)), ?_, ?_, by simp [hinit], by simp [happ]⟩
      · intro sv
        cases sv
        · simp [State.server]
        · exact ha.unspawned true
      · intro sv m hm
        cases sv
        · cases hm
        · exact ha.failing true m hm
      · intro sv
        cases sv
        · simp [State.server]
        · exact ha.joined true
    · exact id
    · exact ⟨by simp, fun _ => happ, by simp [happ], by simp [happ], by simp, ha.unspawned,
        fun _ => ha.lateHttp (Or.inr (Or.inl hst)), ha.failing, ha.joined, by simp [hinit],
        by simp [happ]⟩
  | startHttp serve =>
    simp only at hs
    split_ifs at hs with hst
    all_goals
      have happ := ha.starting (Or.inr (Or.inl hst))
      have hinit : s.initialized = false := by
        by_contra hc
        have := (ha.initialized (by simpa using hc)).1
        rw [hst] at this
        cases this
      have hun := ha.unspawned true (ha.lateHttp (Or.inr (Or.inr hst)))
      cases hs
      refine h.starting rfl rfl rfl rfl rfl rfl rfl (by simp [happ]) ?_ ?_
    · intro hf
      rw [← hf]
      exact failed_congr rfl rfl hun.2.symm
    · refine ⟨by simp, fun _ => happ, by simp [happ], by simp [happ], by simp, ?_, by simp, ?_, ?_,
        by simp [hinit], by simp [happ]⟩
      · intro sv
        cases sv
        · exact ha.unspawned false
        · simp [State.server]
      · intro sv m hm
        cases sv
        · exact ha.failing false m hm
        · cases hm
      · intro sv
        cases sv
        · exact ha.joined false
        · simp [State.server]
    · exact id
    · exact ⟨by simp, fun _ => happ, by simp [happ], by simp [happ], by simp, ha.unspawned, by simp,
        ha.failing, ha.joined, by simp [hinit], by simp [happ]⟩
  | started =>
    simp only at hs
    split_ifs at hs with hst
    cases hs
    have happ := ha.starting hst
    have hinit : s.initialized = false := by
      by_contra hc
      have := (ha.initialized (by simpa using hc)).1
      rcases hst with hst | hst | hst <;> rw [hst] at this <;> cases this
    refine h.starting rfl rfl rfl rfl rfl rfl rfl (by simp [happ]) id ?_
    exact ⟨by simp, by simp, by simp, by simp, by simp, ha.unspawned, by simp, ha.failing, ha.joined,
      by simp [hinit], by simp⟩
  | endServer sv r =>
    simp only at hs
    split_ifs at hs with hsv
    cases hs
    have hnone : (s.server sv).outcome = none := by simpa using hsv.2
    have hfields : ∀ t, t = s.setServer sv { s.server sv with outcome := some r } →
        t.jobs = s.jobs ∧ t.executions = s.executions ∧ t.phase = s.phase ∧
        t.initialized = s.initialized ∧ t.failure = s.failure ∧ t.stops = s.stops ∧
        t.lock = s.lock ∧ t.app = s.app ∧ t.start = s.start ∧ t.grpc.held = s.grpc.held ∧
        (s.failed = true → t.failed = true) := by
      rintro t rfl
      cases sv <;> refine ⟨rfl, rfl, rfl, rfl, rfl, rfl, rfl, rfl, rfl, rfl, fun hf => ?_⟩
      all_goals
        simp only [State.server] at hnone
        simp only [State.failed, hnone, Option.any_none, Bool.or_false, Bool.or_eq_true] at hf
        simp only [State.failed, State.setServer, Bool.or_eq_true]
        tauto
    have happ := ha.endServer hsv.1 hnone r
    obtain ⟨h₁, h₂, h₃, h₄, h₅, h₆, h₇, h₈, h₉, h₁₀, h₁₁⟩ := hfields _ rfl
    exact ⟨h.jobs.congr h₁ h₂ h₃ (fun hn => h₄ ▸ hn) (fun hn => h₅ ▸ hn), happ,
      h.stops.frame h₆ h₇ (.of_eq h₂) h₃ h₄ h₁
        (fun hc => ⟨h₈.trans hc.app, h₉.trans hc.start, h₅.trans hc.failure⟩)
        (fun _ hn => h₁₀.trans hn) h₁₁⟩
  | endJob x o =>
    simp only at hs
    split at hs
    case h_1 j b hx =>
      split_ifs at hs
      cases hs
      refine ⟨h.jobs.endJob hx rfl o, ?_, ?_⟩
      · exact ⟨ha.idle, ha.starting, ha.started, ha.created, ha.early, ha.unspawned, ha.lateHttp,
          ha.failing, ha.joined, ha.initialized, ha.stopped⟩
      · exact h.stops.frame rfl rfl (sameRuns_endExecution hx rfl o) rfl rfl rfl
          (fun hc => ⟨hc.app, hc.start, hc.failure⟩) (fun _ => id) (failed_endExecution hx rfl o)
    case h_2 => cases hs
  | call b | cancel b | lock b | lockCancelled b | check b | drain b | drainCancelled b | head b
  | launch b | join b | joinCancelled b | finish b | drop b => exact h.stepStop hs

theorem ok_reachable {cfg : Config} {s : State} (h : (serviceApp cfg).Reachable s) : Ok cfg s :=
  h.invariant ⟨jobsOk_init cfg, appOk_init cfg, stopsOk_init cfg⟩ fun _ _ _ hi hs => hi.step hs

/-! ## The results -/

theorem executions_check (cfg : Config) (s : State) (b : ℕ) :
    (check cfg s b).executions = s.executions := by
  unfold ServiceApp.check
  cases s.app <;> simp only <;> first | rfl | (split <;> rfl)

theorem executions_drain {cfg : Config} {s t : State} {b : ℕ} {sv : Bool}
    (hs : drain cfg s b sv = some t) : t.executions = s.executions := by
  unfold ServiceApp.drain at hs
  simp only at hs
  split_ifs at hs
  · split at hs <;> cases hs <;> cases sv <;> rfl
  · cases hs
    cases sv <;> rfl

theorem executions_join {cfg : Config} {s t : State} {b i : ℕ}
    (hs : join cfg s b i = some t) : t.executions = s.executions := by
  unfold ServiceApp.join at hs
  simp only at hs
  split_ifs at hs <;> (repeat' split at hs) <;> cases hs <;> rfl

/-- Only a launch extends the record of executions. -/
theorem launch_of_append {cfg : Config} {s t : State} {a : Action} {e : Execution}
    (hs : step cfg s a = some t) (he : t.executions = s.executions ++ [e]) :
    ∃ i, (s.stops e.launcher).pc = .launching i ∧ e.job = (s.phase, i) ∧
      i ≠ size cfg s.phase ∧ (s.jobs (s.phase, i)).completed = false ∧
      (s.jobs (s.phase, i)).task = none := by
  have hsame : t.executions.length = s.executions.length → False := by
    intro hc
    rw [he] at hc
    simp at hc
  unfold ServiceApp.step at hs
  cases a with
  | launch b =>
    simp only [ServiceApp.stepStop] at hs
    cases hpc : (s.stops b).pc <;> simp only [hpc, reduceCtorEq] at hs
    case launching i =>
    simp only [Option.some.injEq] at hs
    subst hs
    unfold ServiceApp.launch at he hsame
    by_cases hend : i = size cfg s.phase
    · rw [if_pos hend] at hsame
      exact (hsame rfl).elim
    rw [if_neg hend] at he hsame
    by_cases hfree : (s.jobs (s.phase, i)).completed = false ∧ (s.jobs (s.phase, i)).task = none
    · simp only [if_pos hfree, State.goto, spawn] at he
      have hee : Execution.mk (s.phase, i) b none = e := by simpa using he
      subst hee
      exact ⟨i, hpc, rfl, hend, hfree⟩
    · simp only [if_neg hfree] at hsame
      exact (hsame rfl).elim
  | endJob x o =>
    simp only at hs
    split at hs
    case h_1 =>
      split_ifs at hs
      cases hs
      exact (hsame (by simp [endExecution])).elim
    case h_2 => cases hs
  | endServer sv r =>
    simp only at hs
    split_ifs at hs
    cases hs
    cases sv <;> exact (hsame rfl).elim
  | start | startGrpc _ | startHttp _ | started =>
    simp only at hs
    split_ifs at hs <;> (cases hs; exact (hsame rfl).elim)
  | check b =>
    simp only [ServiceApp.stepStop] at hs
    cases hpc : (s.stops b).pc <;> simp only [hpc, reduceCtorEq] at hs
    cases hs
    exact (hsame (by rw [executions_check])).elim
  | drain b =>
    simp only [ServiceApp.stepStop] at hs
    cases hpc : (s.stops b).pc <;> simp only [hpc, reduceCtorEq] at hs
    exact (hsame (by rw [executions_drain hs])).elim
  | join b =>
    simp only [ServiceApp.stepStop] at hs
    cases hpc : (s.stops b).pc <;> simp only [hpc, reduceCtorEq] at hs
    exact (hsame (by rw [executions_join hs])).elim
  | cancel b =>
    cases hs
    exact (hsame rfl).elim
  | call b | finish b | drop b =>
    simp only [ServiceApp.stepStop] at hs
    cases hpc : (s.stops b).pc <;> simp only [hpc, reduceCtorEq] at hs
    all_goals
      cases hs
      exact (hsame rfl).elim
  | lock b | lockCancelled b | drainCancelled b | head b | joinCancelled b =>
    simp only [ServiceApp.stepStop] at hs
    cases hpc : (s.stops b).pc <;> simp only [hpc, reduceCtorEq] at hs
    split_ifs at hs <;> (cases hs; exact (hsame rfl).elim)

/-- What holds when the `stop` call `e.launcher` launches `e` in the state `s`. -/
structure LaunchOk (cfg : Config) (s : State) (e : Execution) : Prop where
  /-- Every job of every earlier phase has completed with `Ok`. -/
  earlier : ∀ k < e.job.1, ∀ i < size cfg k, ∃ (x : ℕ) (f : Execution),
    s.executions[x]? = some f ∧ f.job = (k, i) ∧ f.outcome = some .ok
  /-- Every earlier run of this job has ended with `ContextCancelled`. -/
  reruns : ∀ (x : ℕ) (f : Execution), s.executions[x]? = some f → f.job = e.job →
    f.outcome = some (.failed .contextCancelled)
  /-- No failure is recorded. -/
  unrecorded : s.failure = none
  /-- A call that was made after something had failed only runs jobs again, and only of the phase
  in which a job has failed. -/
  late : (s.stops e.launcher).late = true →
    Ran s e.job ∧ ∃ (x : ℕ) (f : Execution), s.executions[x]? = some f ∧ f.job.1 = e.job.1 ∧
      f.outcome.any Outcome.fatal = true

theorem Ok.launchOk {cfg : Config} {s t : State} {a : Action} {e : Execution} (h : Ok cfg s)
    (hs : ServiceApp.step cfg s a = some t) (he : t.executions = s.executions ++ [e]) :
    LaunchOk cfg s e := by
  obtain ⟨i, hpc, hj, hend, hnc, hnt⟩ := launch_of_append hs he
  have hold := h.stops.holding e.launcher (by rw [hpc]; rfl)
  rw [hpc] at hold
  obtain ⟨hc, -, -, hi, -, hlate⟩ := hold
  refine ⟨?_, ?_, hc.failure, ?_⟩
  · intro k hk i' hi'
    rw [hj] at hk
    exact h.jobs.completed (k, i') (h.jobs.past k hk i' hi')
  · intro x f hf hfj
    rw [hj] at hfj
    exact h.jobs.idle x f hf (hfj ▸ hnt) (hfj ▸ hnc) hc.failure
  · intro hl
    obtain ⟨hbegun, x, f, hf, hfp, hfatal⟩ := hlate hl
    rw [hj]
    exact ⟨hbegun i (Nat.lt_of_le_of_ne hi hend), x, f, hf, hfp, hfatal⟩

/-- What holds when an application that was running has become `Stopped`. -/
structure StoppedOk (cfg : Config) (s : State) : Prop where
  servers : ∀ sv, (s.server sv).spawned = true →
    (s.server sv).held = false ∧ (s.server sv).outcome = some (.ok ())
  /-- Every job has completed, and ended with `Ok` exactly once. -/
  jobs : ∀ k < (shutdownPhases cfg).length, ∀ i < size cfg k,
    (s.jobs (k, i)).completed = true ∧
      ∃! x : ℕ, ∃ e : Execution, s.executions[x]? = some e ∧ e.job = (k, i) ∧ e.outcome = some .ok

theorem Ok.stoppedOk {cfg : Config} {s : State} (h : Ok cfg s) (happ : s.app = .stopped)
    (hstart : s.start = .finished) : StoppedOk cfg s := by
  obtain ⟨hinit, hf, hphase⟩ := h.app.stopped happ hstart
  refine ⟨fun sv hsv => ?_, fun k hk i hi => ?_⟩
  · have hheld := (h.app.initialized hinit).2 sv
    exact ⟨hheld, (h.app.server_ok hf _ hheld).2 hsv⟩
  · have hcomp := h.jobs.past k (hphase ▸ hk) i hi
    obtain ⟨x, e, he, hj, ho⟩ := h.jobs.completed _ hcomp
    refine ⟨hcomp, x, ⟨e, he, hj, ho⟩, ?_⟩
    rintro y ⟨f, hf', hfj, hfo⟩
    rcases Nat.lt_trichotomy x y with hlt | heq | hlt
    · have := h.jobs.reruns x y e f hlt he hf' (hj.trans hfj.symm)
      rw [ho] at this
      cases this
    · exact heq.symm
    · have := h.jobs.reruns y x f e hlt hf' he (hfj.trans hj.symm)
      rw [hfo] at this
      cases this

/-- **Shutdown proceeds in phases.** For every application and every interleaving of `stop` calls:
* what holds at every launch is `LaunchOk`;
* of two executions of one job the first has ended with `ContextCancelled`;
* a failure that some call has joined is recorded;
* no call that was made after a failure returns `Ok`;
* an application that was running and is stopped satisfies `StoppedOk`. -/
theorem shutdown_in_phases (cfg : Config) (s : State) (h : (serviceApp cfg).Reachable s) :
    (∀ a t e, step cfg s a = some t → t.executions = s.executions ++ [e] → LaunchOk cfg s e) ∧
    (∀ (x y : ℕ) (e f : Execution), x < y → s.executions[x]? = some e →
      s.executions[y]? = some f → e.job = f.job → e.outcome = some (.failed .contextCancelled)) ∧
    (∀ (x : ℕ) (e : Execution), s.executions[x]? = some e → e.outcome.any Outcome.fatal = true →
      (s.jobs e.job).task = some x ∨ s.failure.isSome) ∧
    (∀ b, (s.stops b).late = true → (s.stops b).pc ≠ .returned (.ok ())) ∧
    (s.app = .stopped → s.start = .finished → StoppedOk cfg s) := by
  have hok := ok_reachable h
  refine ⟨fun a t e hs he => hok.launchOk hs he, hok.jobs.reruns, fun x e he hf => ?_,
    fun b hl hr => ?_, hok.stoppedOk⟩
  · cases hfail : s.failure with
    | none => exact Or.inl (hok.jobs.held_of_fatal hfail he hf)
    | some error => exact Or.inr rfl
  · have := hok.stops.returned b hr
    rw [hl] at this
    cases this

/-- An application with two components. -/
def twoComponents : Config where
  name := "service"
  dataSources := 0
  components := 2
  taskPools := 0
  priorityTaskPools := 0
  storages := 0
  dataSinks := 0
  display := fun _ => "error"

/-- One component is cancelled and joined, the other has failed and is not joined yet; then a
second `stop` is made and reaches the launch loop. -/
def retryAfterFailure : List Action :=
  [.start, .started, .call 0, .lock 0, .check 0, .drain 0, .drain 0, .head 0, .launch 0, .launch 0,
    .launch 0, .endJob 0 (.failed .contextCancelled), .endJob 1 (.failed (.transport "broken")),
    .join 0, .call 1, .lock 1, .check 1, .drain 1, .drain 1, .head 1]

theorem retryAfterFailure_runs :
    ((serviceApp twoComponents).run State.init retryAfterFailure).isSome := by
  decide

/-- A `stop` that is made after a job has failed may still launch a job. -/
theorem late_stop_launches :
    ¬ ∀ (cfg : Config) (s t : State) (a : Action) (e : Execution),
      (serviceApp cfg).Reachable s → step cfg s a = some t → t.executions = s.executions ++ [e] →
        (s.stops e.launcher).late = false := by
  intro hall
  have h := System.reachable_get retryAfterFailure_runs
  have := hall twoComponents _ _ (.launch 1) ⟨(0, 0), 1, none⟩ h rfl (by decide)
  revert this
  decide

/-- The launch it makes is a rerun, in the phase of the failure. -/
theorem shutdown_in_phases_retry :
    ∃ s t, (serviceApp twoComponents).Reachable s ∧
      step twoComponents s (.launch 1) = some t ∧
      t.executions = s.executions ++ [⟨(0, 0), 1, none⟩] ∧ Ran s (0, 0) := by
  have h := System.reachable_get retryAfterFailure_runs
  have hl := (shutdown_in_phases twoComponents _ h).1 (.launch 1) _ ⟨(0, 0), 1, none⟩ rfl (by decide)
  exact ⟨_, _, h, rfl, by decide, (hl.late (by decide)).1⟩

end ServiceApp

end ServiceLib
