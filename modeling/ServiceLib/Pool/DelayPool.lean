import ServiceLib.Clock
import ServiceLib.Execution
import ServiceLib.Runtime.Error

/-!
# The delay pool

Follows `DelayPool` in `src/runtime/pool/delaypool.rs`. A call of `delay` reads the clock, computes
when its callback is due, and admits the callback under the lock of the pool; a task of its own then
waits for the due time and runs the callback. `stop` closes the tracker of these tasks under the
same lock and waits until there are none. Calls, tasks, stops, cancellations and the clock take
their steps in any order.

**Theorem (`delay_exactly_once`).** The callback of an accepted call runs exactly once, not before
it is due unless its context was cancelled, and has finished when any `stop` returns; that of a
refused call never runs; and the two gauges are the number of accepted callbacks that have not
finished.

The idea: a call's two program points say what it has added to each counter, so that the counters
are sums over the calls; and a call that is past the check of `stopped` holds the lock, so that none
is when the pool is stopped.
-/

namespace ServiceLib

namespace DelayPool

/-! ## Contexts and schedules -/

/-- What the pool reads of a `MessageContext`: its cancellation token and its deadline. -/
structure Context where
  token : ℕ
  deadline : Option Instant
deriving DecidableEq

/-- The fields of a `ScheduledDelay` that are computed from the clock. -/
structure Schedule where
  now : Instant
  runAt : Instant
  expeditedByDeadline : Bool
deriving DecidableEq

def clockRange : RuntimeError := .invalidConfiguration "delay duration exceeds the clock range"

/-- The schedule of a call that reads the clock. -/
def schedule (now : Instant) (duration : Duration) (deadline : Option Instant) :
    RuntimeResult Schedule :=
  let requestedAt := now.checkedAdd duration
  let runAt := match requestedAt, deadline with
    | some requested, some deadline => some (min requested deadline)
    | some requested, none => some requested
    | none, some deadline => some deadline
    | none, none => none
  match runAt with
  | none => .error clockRange
  | some runAt => .ok ⟨now, runAt, requestedAt.all fun requested => decide (runAt < requested)⟩

/-! ## Program points -/

/-- A call of `delay`. -/
inductive Pc where
  /-- Before the check of its context. -/
  | called
  /-- Before it reads the clock. -/
  | checked
  /-- At the lock. -/
  | scheduled
  /-- Has the lock. -/
  | locked
  /-- Has added to `wait_queue_length`. -/
  | queued
  /-- Has added to `active_tasks`. -/
  | counted
  /-- Has spawned the task. -/
  | spawned
  | returned (result : RuntimeResult Unit)
  /-- Its future was dropped at the lock. -/
  | dropped
deriving DecidableEq

/-- The task that waits and runs the callback. -/
inductive Task where
  | absent
  /-- At the first poll. -/
  | spawned
  /-- At the timer and the cancellation. -/
  | waiting
  | ready (cancelled : Bool)
  /-- In the callback. -/
  | running
  /-- The callback has finished. -/
  | finished
  /-- Has taken from `wait_queue_length`. -/
  | dequeued
  /-- Has taken from `active_tasks`. -/
  | released
  /-- Has left the tracker. -/
  | retired
deriving DecidableEq

/-- The start of a callback: the clock, and whether its token was cancelled. -/
structure Start where
  clock : Instant
  cancelled : Bool
deriving DecidableEq

structure Call where
  context : Context
  duration : Duration
  pc : Pc
  schedule : Option Schedule
  task : Task
  starts : List Start
deriving DecidableEq

/-- A call of `stop`. -/
inductive StopPc where
  | called
  | locked
  /-- Has set `stopped`. -/
  | marked
  /-- At the tracker and the cancellation of its context. -/
  | waiting
  /-- At the tracker alone. -/
  | timedOut
  | returned
deriving DecidableEq

structure StopCall where
  context : Context
  pc : StopPc
deriving DecidableEq

/-! ## The state -/

inductive Holder where
  | delay (i : ℕ)
  | stop (j : ℕ)
deriving DecidableEq

structure Metrics where
  waitQueueLength : ℤ
  tasksTotal : ℕ
  taskCancelled : ℕ
  stopTimeout : ℕ
deriving DecidableEq

/-- What the parties share: the clock, the tokens, and the pool. -/
structure Shared where
  clock : Instant
  cancelled : ℕ → Bool
  lock : Option Holder
  stopped : Bool
  /-- The tracker: closed, and the number of its tasks. -/
  closed : Bool
  tracked : ℤ
  metrics : Option Metrics
  activeTasks : ℤ

structure State where
  shared : Shared
  calls : List Call
  stops : List StopCall
  /-- A callback has panicked and the process has exited. -/
  exited : Bool

namespace Shared

/-- `MessageContext::is_cancelled`, and when `cancelled` is ready. -/
def isCancelled (p : Shared) (context : Context) : Bool :=
  p.cancelled context.token || context.deadline.any fun deadline => decide (deadline ≤ p.clock)

def setMetrics (p : Shared) (f : Metrics → Metrics) : Shared :=
  { p with metrics := p.metrics.map f }

end Shared

/-! ## Steps -/

inductive DelayAction where
  | check
  | readClock
  | lock
  | observe
  | count
  | spawn
  | ret
  | dropFuture
deriving DecidableEq

/-- The callback finishes in a step of its task. -/
inductive TaskAction where
  | poll
  | fire
  | wake
  | start
  | finish
  | dequeue
  | release
  | retire
deriving DecidableEq

inductive StopAction where
  | lock
  | mark
  | close
  | timeout
  | tasksDone
deriving DecidableEq

inductive Action where
  | delay (context : Context) (duration : Duration)
  | call (i : ℕ) (a : DelayAction)
  | task (i : ℕ) (a : TaskAction)
  /-- The callback panics. -/
  | panic (i : ℕ)
  | stop (context : Context)
  | stopCall (j : ℕ) (a : StopAction)
  | cancel (token : ℕ)
  | tick (clock : Instant)

/-- `delay` -/
def delayStep (i : ℕ) (c : Call) (p : Shared) : DelayAction → Option (Call × Shared)
  | .check =>
    if c.pc = .called then
      if p.isCancelled c.context then
        some ({ c with pc := .returned (.error .contextCancelled) }, p)
      else some ({ c with pc := .checked }, p)
    else none
  | .readClock =>
    if c.pc = .checked then
      match DelayPool.schedule p.clock c.duration c.context.deadline with
      | .error e => some ({ c with pc := .returned (.error e) }, p)
      | .ok schedule => some ({ c with pc := .scheduled, schedule := some schedule }, p)
    else none
  | .lock =>
    if c.pc = .scheduled ∧ p.lock = none then
      some ({ c with pc := .locked }, { p with lock := some (.delay i) })
    else none
  | .dropFuture =>
    if c.pc = .scheduled then some ({ c with pc := .dropped }, p) else none
  | .observe =>
    if c.pc = .locked then
      if p.stopped then
        some ({ c with pc := .returned (.error (.resourceStopped "delay")) },
          { p with lock := none })
      else some ({ c with pc := .queued },
        p.setMetrics fun m => { m with waitQueueLength := m.waitQueueLength + 1 })
    else none
  | .count =>
    if c.pc = .queued then
      some ({ c with pc := .counted }, { p with activeTasks := p.activeTasks + 1 })
    else none
  | .spawn =>
    if c.pc = .counted then
      some ({ c with pc := .spawned, task := .spawned }, { p with tracked := p.tracked + 1 })
    else none
  | .ret =>
    if c.pc = .spawned then
      some ({ c with pc := .returned (.ok ()) }, { p with lock := none })
    else none

/-- `ScheduledDelay::wait_ready` and `ScheduledDelay::execute` -/
def taskStep (c : Call) (p : Shared) : TaskAction → Option (Call × Shared)
  | .poll =>
    match c.task, c.schedule with
    | .spawned, some schedule =>
      if schedule.runAt ≤ p.clock then
        some ({ c with
          task := .ready (schedule.expeditedByDeadline || p.isCancelled c.context) }, p)
      else some ({ c with task := .waiting }, p)
    | _, _ => none
  | .fire =>
    match c.task, c.schedule with
    | .waiting, some schedule =>
      if schedule.runAt ≤ p.clock then
        some ({ c with task := .ready schedule.expeditedByDeadline }, p)
      else none
    | _, _ => none
  | .wake =>
    if c.task = .waiting ∧ p.isCancelled c.context = true then
      some ({ c with task := .ready true }, p)
    else none
  | .start =>
    match c.task with
    | .ready cancelled =>
      some ({ c with
          task := .running
          starts := c.starts ++ [⟨p.clock, p.cancelled c.context.token⟩] },
        p.setMetrics fun m =>
          { m with taskCancelled := m.taskCancelled + if cancelled then 1 else 0 })
    | _ => none
  | .finish =>
    if c.task = .running then some ({ c with task := .finished }, p) else none
  | .dequeue =>
    if c.task = .finished then
      some ({ c with task := .dequeued }, p.setMetrics fun m =>
        { m with waitQueueLength := m.waitQueueLength - 1, tasksTotal := m.tasksTotal + 1 })
    else none
  | .release =>
    if c.task = .dequeued then
      some ({ c with task := .released }, { p with activeTasks := p.activeTasks - 1 })
    else none
  | .retire =>
    if c.task = .released then
      some ({ c with task := .retired }, { p with tracked := p.tracked - 1 })
    else none

/-- `stop` -/
def stopStep (j : ℕ) (c : StopCall) (p : Shared) : StopAction → Option (StopCall × Shared)
  | .lock =>
    if c.pc = .called ∧ p.lock = none then
      some ({ c with pc := .locked }, { p with lock := some (.stop j) })
    else none
  | .mark =>
    if c.pc = .locked then some ({ c with pc := .marked }, { p with stopped := true }) else none
  | .close =>
    if c.pc = .marked then
      some ({ c with pc := .waiting }, { p with closed := true, lock := none })
    else none
  | .timeout =>
    if c.pc = .waiting ∧ p.isCancelled c.context = true then
      some ({ c with pc := .timedOut },
        p.setMetrics fun m => { m with stopTimeout := m.stopTimeout + 1 })
    else none
  | .tasksDone =>
    if (c.pc = .waiting ∨ c.pc = .timedOut) ∧ p.closed = true ∧ p.tracked = 0 then
      some ({ c with pc := .returned }, p)
    else none

def step (s : State) (a : Action) : Option State :=
  if s.exited then none
  else match a with
    | .delay context duration =>
      some { s with calls := s.calls ++ [⟨context, duration, .called, none, .absent, []⟩] }
    | .call i a =>
      s.calls[i]?.bind fun c => (delayStep i c s.shared a).map fun r =>
        { s with calls := s.calls.set i r.1, shared := r.2 }
    | .task i a =>
      s.calls[i]?.bind fun c => (taskStep c s.shared a).map fun r =>
        { s with calls := s.calls.set i r.1, shared := r.2 }
    | .panic i =>
      s.calls[i]?.bind fun c => if c.task = .running then some { s with exited := true } else none
    | .stop context => some { s with stops := s.stops ++ [⟨context, .called⟩] }
    | .stopCall j a =>
      s.stops[j]?.bind fun c => (stopStep j c s.shared a).map fun r =>
        { s with stops := s.stops.set j r.1, shared := r.2 }
    | .cancel token =>
      some { s with shared := { s.shared with
        cancelled := Function.update s.shared.cancelled token true } }
    | .tick clock =>
      if s.shared.clock ≤ clock then some { s with shared := { s.shared with clock := clock } }
      else none

/-- `DelayPool::new`, with or without metrics. -/
def init (metrics : Bool) (clock : Instant) : State where
  shared :=
    { clock := clock, cancelled := fun _ => false, lock := none, stopped := false, closed := false
      tracked := 0, metrics := if metrics then some ⟨0, 0, 0, 0⟩ else none, activeTasks := 0 }
  calls := []
  stops := []
  exited := false

def system (metrics : Bool) (clock : Instant) : System State Action := ⟨init metrics clock, step⟩

/-! ## What a call has done -/

/-- Has a schedule. -/
def Pc.isScheduled : Pc → Bool
  | .scheduled | .locked | .queued | .counted | .spawned | .returned (.ok _) => true
  | _ => false

def Pc.holdsLock : Pc → Bool
  | .locked | .queued | .counted | .spawned => true
  | _ => false

/-- Has passed the check of `stopped` and not returned. -/
def Pc.isAdmitting : Pc → Bool
  | .queued | .counted | .spawned => true
  | _ => false

/-- Has added to `wait_queue_length` and not spawned the task. -/
def Pc.isQueued : Pc → Bool
  | .queued | .counted => true
  | _ => false

/-- Has added to `active_tasks` and not spawned the task. -/
def Pc.isCounted : Pc → Bool
  | .counted => true
  | _ => false

def Pc.hasTask : Pc → Bool
  | .spawned | .returned (.ok _) => true
  | _ => false

namespace Task

/-- The callback has been started. -/
def isStarted : Task → Bool
  | .running | .finished | .dequeued | .released | .retired => true
  | _ => false

def isFinished : Task → Bool
  | .finished | .dequeued | .released | .retired => true
  | _ => false

def isQueued : Task → Bool
  | .spawned | .waiting | .ready _ | .running | .finished => true
  | _ => false

def isActive : Task → Bool
  | .spawned | .waiting | .ready _ | .running | .finished | .dequeued => true
  | _ => false

def isTracked : Task → Bool
  | .absent | .retired => false
  | _ => true

end Task

namespace Call

/-- Counted in `wait_queue_length`. -/
def inQueue (c : Call) : Bool := c.pc.isQueued || c.task.isQueued

/-- Counted in `active_tasks`. -/
def inActive (c : Call) : Bool := c.pc.isCounted || c.task.isActive

/-- Counted by the tracker. -/
def inTracker (c : Call) : Bool := c.task.isTracked

/-- The callback may start at this clock. -/
def Due (c : Call) (clock : Instant) (cancelled : Bool) : Prop :=
  cancelled = true ∨ ∃ schedule, c.schedule = some schedule ∧ schedule.runAt ≤ clock

end Call

/-- When a callback is due, in nanoseconds: after its duration or at the deadline of its context,
whichever is earlier. -/
def dueNanos (now : Instant) (duration : Duration) (deadline : Option Instant) : ℤ :=
  match deadline with
  | none => now.asNanos + duration.asNanos
  | some deadline => min (now.asNanos + duration.asNanos) deadline.asNanos

/-- An instant that is out of range is later than every deadline. -/
theorem schedule_runAt {now : Instant} {duration : Duration} {deadline : Option Instant}
    {r : Schedule} (h : schedule now duration deadline = .ok r) :
    r.now = now ∧ r.runAt.asNanos = dueNanos now duration deadline := by
  cases hadd : now.checkedAdd duration with
  | some requested =>
    have hsum := Instant.asNanos_of_checkedAdd hadd
    simp only [schedule, hadd] at h
    cases deadline with
    | none =>
      obtain rfl := Except.ok.inj h
      exact ⟨rfl, hsum⟩
    | some deadline =>
      obtain rfl := Except.ok.inj h
      refine ⟨rfl, ?_⟩
      rw [dueNanos, ← hsum]
      exact Instant.asNanos_min requested deadline
  | none =>
    simp only [schedule, hadd] at h
    cases deadline with
    | none => cases h
    | some deadline =>
      obtain rfl := Except.ok.inj h
      have hlt := deadline.asNanos_lt
      have hover : ¬ now.asNanos + duration.asNanos < Instant.limit := by
        rw [← Instant.checkedAdd_isSome_iff, hadd]
        simp
      refine ⟨rfl, ?_⟩
      rw [dueNanos, min_eq_right (by omega)]

/-! ## The invariant -/

/-- What a call has come to, by its two program points. -/
structure CallOk (i : ℕ) (p : Shared) (c : Call) : Prop where
  task : c.task = .absent ↔ c.pc.hasTask = false
  scheduled : c.pc.isScheduled = true → ∃ schedule, c.schedule = some schedule ∧
    schedule.runAt.asNanos = dueNanos schedule.now c.duration c.context.deadline
  notStarted : c.task.isStarted = false → c.starts = []
  started : c.task.isStarted = true → ∃ start, c.starts = [start] ∧
    c.Due start.clock start.cancelled
  ready : ∀ cancelled, c.task = .ready cancelled → c.Due p.clock (p.cancelled c.context.token)
  lock : c.pc.holdsLock = true ↔ p.lock = some (.delay i)
  admitting : c.pc.isAdmitting = true → p.stopped = false

structure StopOk (j : ℕ) (p : Shared) (c : StopCall) : Prop where
  lock : c.pc = .locked ∨ c.pc = .marked ↔ p.lock = some (.stop j)
  marked : c.pc = .marked → p.stopped = true
  closed : c.pc = .waiting ∨ c.pc = .timedOut ∨ c.pc = .returned → p.closed = true
  drained : c.pc = .returned → p.tracked = 0

/-- The steps of others keep what is true of a call. -/
theorem CallOk.frame {i : ℕ} {p p' : Shared} {c : Call} (h : CallOk i p c)
    (hlock : p'.lock = some (.delay i) ↔ p.lock = some (.delay i)) (hclock : p.clock ≤ p'.clock)
    (hcancelled : ∀ k, p.cancelled k = true → p'.cancelled k = true)
    (hstopped : p'.stopped = true → p.stopped = true ∨ ∀ i, p.lock ≠ some (.delay i)) :
    CallOk i p' c where
  task := h.task
  scheduled := h.scheduled
  notStarted := h.notStarted
  started := h.started
  ready cancelled hready := by
    obtain hc | ⟨schedule, hs, hle⟩ := h.ready cancelled hready
    · exact .inl (hcancelled _ hc)
    · exact .inr ⟨schedule, hs, hle.trans hclock⟩
  lock := h.lock.trans hlock.symm
  admitting hpc := by
    have hheld : p.lock = some (.delay i) := by
      apply h.lock.mp
      cases hc : c.pc <;> simp_all [Pc.isAdmitting, Pc.holdsLock]
    rw [← Bool.not_eq_true]
    intro hstop
    obtain hs | hnone := hstopped hstop
    · exact absurd hs (by rw [h.admitting hpc]; decide)
    · exact hnone i hheld

/-- A call moves on before it has a task. -/
theorem CallOk.toPc {i : ℕ} {p p' : Shared} {c : Call} (h : CallOk i p c) {pc : Pc}
    {sched : Option Schedule} (habsent : c.task = .absent) (htask : pc.hasTask = false)
    (hsched : pc.isScheduled = true → ∃ schedule, sched = some schedule ∧
      schedule.runAt.asNanos = dueNanos schedule.now c.duration c.context.deadline)
    (hlock : pc.holdsLock = true ↔ p'.lock = some (.delay i))
    (hadmitting : pc.isAdmitting = true → p'.stopped = false) :
    CallOk i p' { c with pc := pc, schedule := sched } where
  task := ⟨fun _ => htask, fun _ => habsent⟩
  scheduled := hsched
  notStarted := h.notStarted
  started hstarted := by
    rw [habsent] at hstarted
    cases hstarted
  ready cancelled hready := by
    rw [habsent] at hready
    cases hready
  lock := hlock
  admitting := hadmitting

/-- A call that is not on its way to a task, and not at the lock. -/
theorem CallOk.leave {i : ℕ} {p p' : Shared} {c : Call} (h : CallOk i p c) {pc : Pc}
    (habsent : c.task = .absent) (hpc : pc.isScheduled = false)
    (hlock : p'.lock ≠ some (.delay i)) : CallOk i p' { c with pc := pc } := by
  have hpoints : pc.hasTask = false ∧ pc.holdsLock = false ∧ pc.isAdmitting = false := by
    cases pc with
    | returned result => cases result <;> simp_all [Pc.isScheduled, Pc.hasTask, Pc.holdsLock,
        Pc.isAdmitting]
    | _ => simp_all [Pc.isScheduled, Pc.hasTask, Pc.holdsLock, Pc.isAdmitting]
  obtain ⟨htask, hholds, hadmitting⟩ := hpoints
  refine h.toPc habsent htask ?_ (iff_of_false ?_ hlock) ?_
  · simp [hpc]
  · simp [hholds]
  · simp [hadmitting]

/-- A task moves on; the shared state changes in its counters only. -/
theorem CallOk.toTask {i : ℕ} {p p' : Shared} {c : Call} (h : CallOk i p c) {task : Task}
    {starts : List Start} (hold : c.task ≠ .absent) (hnew : task ≠ .absent)
    (hnot : task.isStarted = false → starts = [])
    (hstarted : task.isStarted = true → ∃ start, starts = [start] ∧
      c.Due start.clock start.cancelled)
    (hready : ∀ cancelled, task = .ready cancelled → c.Due p.clock (p.cancelled c.context.token))
    (hclock : p'.clock = p.clock) (hcancelled : p'.cancelled = p.cancelled)
    (hlock : p'.lock = p.lock) (hstopped : p'.stopped = p.stopped) :
    CallOk i p' { c with task := task, starts := starts } where
  task := iff_of_false hnew fun hpc => hold (h.task.mpr hpc)
  scheduled := h.scheduled
  notStarted := hnot
  started := hstarted
  ready := by
    rw [hclock, hcancelled]
    exact hready
  lock := by
    rw [hlock]
    exact h.lock
  admitting hpc := hstopped.trans (h.admitting hpc)

theorem delayStep_ok {i : ℕ} {c c' : Call} {p p' : Shared} {a : DelayAction} (h : CallOk i p c)
    (hs : delayStep i c p a = some (c', p')) : CallOk i p' c' := by
  have hlock := h.lock
  have htask := h.task
  have hsched := h.scheduled
  have hadm := h.admitting
  cases a with
  | check =>
    simp only [delayStep, Option.ite_none_right_eq_some] at hs
    obtain ⟨hpc, hs⟩ := hs
    rw [hpc] at hlock htask
    split at hs <;> cases hs <;>
      exact h.leave (htask.mpr rfl) rfl (mt hlock.mpr (by decide))
  | readClock =>
    simp only [delayStep, Option.ite_none_right_eq_some] at hs
    obtain ⟨hpc, hs⟩ := hs
    rw [hpc] at hlock htask
    split at hs
    case h_1 e _ =>
      cases hs
      exact h.leave (htask.mpr rfl) rfl (mt hlock.mpr (by decide))
    case h_2 schedule hok =>
      cases hs
      obtain ⟨hnow, hrun⟩ := schedule_runAt hok
      exact h.toPc (htask.mpr rfl) rfl (fun _ => ⟨schedule, rfl, hnow ▸ hrun⟩) hlock (by simp [Pc.isAdmitting])
  | lock =>
    simp only [delayStep, Option.ite_none_right_eq_some] at hs
    obtain ⟨⟨hpc, hnone⟩, hs⟩ := hs
    rw [hpc] at hsched htask
    cases hs
    exact h.toPc (htask.mpr rfl) rfl (fun _ => hsched rfl) (iff_of_true rfl rfl)
      (by simp [Pc.isAdmitting])
  | dropFuture =>
    simp only [delayStep, Option.ite_none_right_eq_some] at hs
    obtain ⟨hpc, hs⟩ := hs
    rw [hpc] at hlock htask
    cases hs
    exact h.leave (htask.mpr rfl) rfl (mt hlock.mpr (by decide))
  | observe =>
    simp only [delayStep, Option.ite_none_right_eq_some] at hs
    obtain ⟨hpc, hs⟩ := hs
    rw [hpc] at hsched hlock htask
    split at hs
    case isTrue hstopped =>
      cases hs
      exact h.leave (htask.mpr rfl) rfl (by simp)
    case isFalse hopen =>
      cases hs
      exact h.toPc (htask.mpr rfl) rfl (fun _ => hsched rfl) hlock
        (fun _ => Bool.eq_false_iff.mpr hopen)
  | count =>
    simp only [delayStep, Option.ite_none_right_eq_some] at hs
    obtain ⟨hpc, hs⟩ := hs
    rw [hpc] at hsched hlock htask hadm
    cases hs
    exact h.toPc (htask.mpr rfl) rfl (fun _ => hsched rfl) hlock (fun _ => hadm rfl)
  | spawn =>
    simp only [delayStep, Option.ite_none_right_eq_some] at hs
    obtain ⟨hpc, hs⟩ := hs
    rw [hpc] at hsched hlock htask hadm
    cases hs
    have hempty : c.starts = [] := h.notStarted (by rw [htask.mpr rfl]; rfl)
    exact
      { task := by simp [Pc.hasTask]
        scheduled := fun _ => hsched rfl
        notStarted := fun _ => hempty
        started := by simp [Task.isStarted]
        ready := by simp
        lock := hlock
        admitting := fun _ => hadm rfl }
  | ret =>
    simp only [delayStep, Option.ite_none_right_eq_some] at hs
    obtain ⟨hpc, hs⟩ := hs
    rw [hpc] at hsched htask
    cases hs
    exact
      { task := htask
        scheduled := fun _ => hsched rfl
        notStarted := h.notStarted
        started := h.started
        ready := h.ready
        lock := by simp [Pc.holdsLock]
        admitting := by simp [Pc.isAdmitting] }

/-- The deadline of a context is not before its callback is due. -/
theorem CallOk.due_of_isCancelled {i : ℕ} {p : Shared} {c : Call} (h : CallOk i p c)
    (htask : c.task ≠ .absent) (hc : p.isCancelled c.context = true) :
    c.Due p.clock (p.cancelled c.context.token) := by
  have hpc : c.pc.isScheduled = true := by
    have hhas : c.pc.hasTask ≠ false := mt h.task.mpr htask
    cases hpc : c.pc with
    | returned result => cases result <;> simp_all [Pc.hasTask, Pc.isScheduled]
    | _ => simp_all [Pc.hasTask, Pc.isScheduled]
  obtain ⟨schedule, hschedule, hrun⟩ := h.scheduled hpc
  rw [Shared.isCancelled, Bool.or_eq_true, Option.any_eq_true] at hc
  obtain htoken | ⟨deadline, hdeadline, hle⟩ := hc
  · exact .inl htoken
  · refine .inr ⟨schedule, hschedule, ?_⟩
    rw [hdeadline, dueNanos] at hrun
    have hmin : schedule.runAt.asNanos ≤ deadline.asNanos := hrun ▸ min_le_right _ _
    exact (Instant.le_iff.mpr hmin).trans (of_decide_eq_true hle)

theorem taskStep_ok {i : ℕ} {c c' : Call} {p p' : Shared} {a : TaskAction} (h : CallOk i p c)
    (hs : taskStep c p a = some (c', p')) : CallOk i p' c' := by
  have hnot := h.notStarted
  have hstarted := h.started
  cases a with
  | poll =>
    simp only [taskStep] at hs
    split at hs
    case h_2 => cases hs
    case h_1 schedule htask hschedule =>
      have hempty : c.starts = [] := hnot (by rw [htask]; rfl)
      split at hs
      case isTrue hle =>
        cases hs
        exact h.toTask (by simp [htask]) (by simp) (fun _ => hempty) (by simp [Task.isStarted])
          (fun _ _ => .inr ⟨schedule, hschedule, hle⟩) rfl rfl rfl rfl
      case isFalse =>
        cases hs
        exact h.toTask (by simp [htask]) (by simp) (fun _ => hempty) (by simp [Task.isStarted])
          (by simp) rfl rfl rfl rfl
  | fire =>
    simp only [taskStep] at hs
    split at hs
    case h_2 => cases hs
    case h_1 schedule htask hschedule =>
      obtain ⟨hle, hs⟩ := Option.ite_none_right_eq_some.mp hs
      cases hs
      exact h.toTask (by simp [htask]) (by simp) (fun _ => hnot (by rw [htask]; rfl))
        (by simp [Task.isStarted]) (fun _ _ => .inr ⟨schedule, hschedule, hle⟩) rfl rfl rfl rfl
  | wake =>
    simp only [taskStep, Option.ite_none_right_eq_some] at hs
    obtain ⟨⟨htask, hc⟩, hs⟩ := hs
    have habsent : c.task ≠ .absent := by simp [htask]
    cases hs
    exact h.toTask habsent (by simp) (fun _ => hnot (by rw [htask]; rfl))
      (by simp [Task.isStarted]) (fun _ _ => h.due_of_isCancelled habsent hc) rfl rfl rfl rfl
  | start =>
    simp only [taskStep] at hs
    split at hs
    case h_2 => cases hs
    case h_1 cancelled htask =>
      have hempty : c.starts = [] := hnot (by rw [htask]; rfl)
      cases hs
      refine h.toTask (by simp [htask]) (by simp) (by simp [Task.isStarted])
        (fun _ => ⟨_, by rw [hempty]; rfl, h.ready cancelled htask⟩) (by simp) rfl rfl rfl rfl
  | finish =>
    simp only [taskStep, Option.ite_none_right_eq_some] at hs
    obtain ⟨htask, hs⟩ := hs
    cases hs
    exact h.toTask (by simp [htask]) (by simp) (by simp [Task.isStarted])
      (fun _ => hstarted (by rw [htask]; rfl)) (by simp) rfl rfl rfl rfl
  | dequeue =>
    simp only [taskStep, Option.ite_none_right_eq_some] at hs
    obtain ⟨htask, hs⟩ := hs
    cases hs
    exact h.toTask (by simp [htask]) (by simp) (by simp [Task.isStarted])
      (fun _ => hstarted (by rw [htask]; rfl)) (by simp) rfl rfl rfl rfl
  | release =>
    simp only [taskStep, Option.ite_none_right_eq_some] at hs
    obtain ⟨htask, hs⟩ := hs
    cases hs
    exact h.toTask (by simp [htask]) (by simp) (by simp [Task.isStarted])
      (fun _ => hstarted (by rw [htask]; rfl)) (by simp) rfl rfl rfl rfl
  | retire =>
    simp only [taskStep, Option.ite_none_right_eq_some] at hs
    obtain ⟨htask, hs⟩ := hs
    cases hs
    exact h.toTask (by simp [htask]) (by simp) (by simp [Task.isStarted])
      (fun _ => hstarted (by rw [htask]; rfl)) (by simp) rfl rfl rfl rfl

/-! ## The counters -/

/-- As a number. -/
def ind (b : Bool) : ℤ := if b then 1 else 0

/-- What one step of a call or its task does to the shared state. -/
structure Effect (i : ℕ) (c c' : Call) (p p' : Shared) : Prop where
  lock : ∀ h, h ≠ .delay i → (p'.lock = some h ↔ p.lock = some h)
  clock : p'.clock = p.clock
  cancelled : p'.cancelled = p.cancelled
  stopped : p'.stopped = p.stopped
  closed : p'.closed = p.closed
  tracked : p'.tracked = p.tracked + ind c'.inTracker - ind c.inTracker
  active : p'.activeTasks = p.activeTasks + ind c'.inActive - ind c.inActive
  queue : p'.metrics.map Metrics.waitQueueLength =
    p.metrics.map fun m => m.waitQueueLength + ind c'.inQueue - ind c.inQueue
  admitted : c.inTracker = false → c'.inTracker = true → p.stopped = false

/-- A step that only moves the call, and possibly the lock, by what it holds of it. -/
theorem Effect.ofLock {i : ℕ} {c c' : Call} {p : Shared} {lock : Option Holder}
    (hold : p.lock = lock ∨ p.lock = none ∨ p.lock = some (.delay i))
    (hnew : p.lock = lock ∨ lock = none ∨ lock = some (.delay i))
    (htracker : c'.inTracker = c.inTracker) (hactive : c'.inActive = c.inActive)
    (hqueue : c'.inQueue = c.inQueue) : Effect i c c' p { p with lock := lock } where
  lock h hne := by
    have hne' : Holder.delay i ≠ h := hne.symm
    obtain rfl | hnew := hnew
    · exact Iff.rfl
    · obtain rfl | hold := hold
      · exact Iff.rfl
      · obtain rfl | rfl := hnew <;> obtain hold | hold := hold <;> simp [hold, hne']
  clock := rfl
  cancelled := rfl
  stopped := rfl
  closed := rfl
  tracked := by rw [htracker, add_sub_cancel_right]
  active := by rw [hactive, add_sub_cancel_right]
  queue := by simp [hqueue]
  admitted h h' := by rw [htracker, h] at h'; cases h'

theorem Effect.same {i : ℕ} {c c' : Call} {p : Shared} (htracker : c'.inTracker = c.inTracker)
    (hactive : c'.inActive = c.inActive) (hqueue : c'.inQueue = c.inQueue) :
    Effect i c c' p p :=
  Effect.ofLock (.inl rfl) (.inl (rfl : p.lock = p.lock)) htracker hactive hqueue

theorem delayStep_effect {i : ℕ} {c c' : Call} {p p' : Shared} {a : DelayAction}
    (h : CallOk i p c) (hs : delayStep i c p a = some (c', p')) : Effect i c c' p p' := by
  have htask := h.task
  have hlock := h.lock
  have hadm := h.admitting
  cases a with
  | check =>
    simp only [delayStep, Option.ite_none_right_eq_some] at hs
    obtain ⟨hpc, hs⟩ := hs
    split at hs <;> cases hs <;>
      exact Effect.same rfl (by simp [Call.inActive, Pc.isCounted, hpc]) (by simp [Call.inQueue, Pc.isQueued, hpc])
  | readClock =>
    simp only [delayStep, Option.ite_none_right_eq_some] at hs
    obtain ⟨hpc, hs⟩ := hs
    split at hs <;> cases hs <;>
      exact Effect.same rfl (by simp [Call.inActive, Pc.isCounted, hpc]) (by simp [Call.inQueue, Pc.isQueued, hpc])
  | lock =>
    simp only [delayStep, Option.ite_none_right_eq_some] at hs
    obtain ⟨⟨hpc, hnone⟩, hs⟩ := hs
    cases hs
    exact Effect.ofLock (.inr (.inl hnone)) (.inr (.inr rfl)) rfl
      (by simp [Call.inActive, Pc.isCounted, hpc]) (by simp [Call.inQueue, Pc.isQueued, hpc])
  | dropFuture =>
    simp only [delayStep, Option.ite_none_right_eq_some] at hs
    obtain ⟨hpc, hs⟩ := hs
    cases hs
    exact Effect.same rfl (by simp [Call.inActive, Pc.isCounted, hpc]) (by simp [Call.inQueue, Pc.isQueued, hpc])
  | observe =>
    simp only [delayStep, Option.ite_none_right_eq_some] at hs
    obtain ⟨hpc, hs⟩ := hs
    rw [hpc] at htask hlock
    split at hs
    case isTrue =>
      cases hs
      exact Effect.ofLock (.inr (.inr (hlock.mp rfl))) (.inr (.inl rfl)) rfl
        (by simp [Call.inActive, Pc.isCounted, hpc]) (by simp [Call.inQueue, Pc.isQueued, hpc])
    case isFalse =>
      cases hs
      have habsent := htask.mpr rfl
      constructor <;> simp [Call.inTracker, Call.inActive, Call.inQueue, Pc.isQueued, Pc.isCounted,
        Shared.setMetrics,
        Task.isQueued, Task.isTracked, Task.isActive, hpc, habsent, ind, Function.comp_def]
  | count =>
    simp only [delayStep, Option.ite_none_right_eq_some] at hs
    obtain ⟨hpc, hs⟩ := hs
    rw [hpc] at htask
    cases hs
    have habsent := htask.mpr rfl
    constructor <;> simp [Call.inTracker, Call.inActive, Call.inQueue, Pc.isQueued, Pc.isCounted,
        Task.isActive,
      Task.isTracked, hpc, habsent, ind]
  | spawn =>
    simp only [delayStep, Option.ite_none_right_eq_some] at hs
    obtain ⟨hpc, hs⟩ := hs
    rw [hpc] at htask hadm
    cases hs
    have habsent := htask.mpr rfl
    have hopen := hadm rfl
    constructor <;> simp [Call.inTracker, Call.inActive, Call.inQueue, Pc.isQueued, Pc.isCounted,
        Task.isQueued,
      Task.isActive, Task.isTracked, hpc, habsent, hopen, ind]
  | ret =>
    simp only [delayStep, Option.ite_none_right_eq_some] at hs
    obtain ⟨hpc, hs⟩ := hs
    rw [hpc] at hlock
    cases hs
    exact Effect.ofLock (.inr (.inr (hlock.mp rfl))) (.inr (.inl rfl)) rfl
      (by simp [Call.inActive, Pc.isCounted, hpc]) (by simp [Call.inQueue, Pc.isQueued, hpc])

/-- A task takes from the counters in the order in which `delay` added to them. -/
theorem taskStep_effect {i : ℕ} {c c' : Call} {p p' : Shared} {a : TaskAction}
    (h : CallOk i p c) (hs : taskStep c p a = some (c', p')) : Effect i c c' p p' := by
  have hpoints : c.task ≠ .absent → c.pc.isQueued = false ∧ c.pc.isCounted = false := by
    intro htask
    have hhas := mt h.task.mpr htask
    cases hpc : c.pc <;> simp_all [Pc.hasTask, Pc.isQueued, Pc.isCounted]
  cases a with
  | poll =>
    simp only [taskStep] at hs
    split at hs
    case h_2 => cases hs
    case h_1 schedule htask _ =>
      split at hs <;> cases hs <;>
        exact Effect.same (by simp [Call.inTracker, htask, Task.isTracked])
          (by simp [Call.inActive, htask, Task.isActive])
          (by simp [Call.inQueue, htask, Task.isQueued])
  | fire =>
    simp only [taskStep] at hs
    split at hs
    case h_2 => cases hs
    case h_1 schedule htask _ =>
      obtain ⟨_, hs⟩ := Option.ite_none_right_eq_some.mp hs
      cases hs
      exact Effect.same (by simp [Call.inTracker, htask, Task.isTracked])
        (by simp [Call.inActive, htask, Task.isActive])
        (by simp [Call.inQueue, htask, Task.isQueued])
  | wake =>
    simp only [taskStep, Option.ite_none_right_eq_some] at hs
    obtain ⟨⟨htask, _⟩, hs⟩ := hs
    cases hs
    exact Effect.same (by simp [Call.inTracker, htask, Task.isTracked])
      (by simp [Call.inActive, htask, Task.isActive])
      (by simp [Call.inQueue, htask, Task.isQueued])
  | start =>
    simp only [taskStep] at hs
    split at hs
    case h_2 => cases hs
    case h_1 cancelled htask =>
      cases hs
      constructor <;> simp [Call.inTracker, Call.inActive, Call.inQueue, Shared.setMetrics,
        Task.isQueued, Task.isTracked, Task.isActive, htask, Function.comp_def]
  | finish =>
    simp only [taskStep, Option.ite_none_right_eq_some] at hs
    obtain ⟨htask, hs⟩ := hs
    cases hs
    exact Effect.same (by simp [Call.inTracker, htask, Task.isTracked])
      (by simp [Call.inActive, htask, Task.isActive])
      (by simp [Call.inQueue, htask, Task.isQueued])
  | dequeue =>
    simp only [taskStep, Option.ite_none_right_eq_some] at hs
    obtain ⟨htask, hs⟩ := hs
    cases hs
    obtain ⟨hqueued, hcounted⟩ := hpoints (by simp [htask])
    constructor <;> simp [Call.inTracker, Call.inActive, Call.inQueue, Shared.setMetrics,
      Task.isQueued, Task.isTracked, Task.isActive, htask, hqueued, hcounted, ind,
      Function.comp_def]
  | release =>
    simp only [taskStep, Option.ite_none_right_eq_some] at hs
    obtain ⟨htask, hs⟩ := hs
    cases hs
    obtain ⟨hqueued, hcounted⟩ := hpoints (by simp [htask])
    constructor <;> simp [Call.inTracker, Call.inActive, Call.inQueue, Task.isQueued,
      Task.isTracked, Task.isActive, htask, hqueued, hcounted, ind]
  | retire =>
    simp only [taskStep, Option.ite_none_right_eq_some] at hs
    obtain ⟨htask, hs⟩ := hs
    cases hs
    obtain ⟨hqueued, hcounted⟩ := hpoints (by simp [htask])
    constructor <;> simp [Call.inTracker, Call.inActive, Call.inQueue, Task.isQueued,
      Task.isTracked, Task.isActive, htask, hqueued, hcounted, ind]

/-! ## The whole state -/

/-- The counters are sums over the calls. -/
structure Ok (s : State) : Prop where
  calls : ∀ i c, s.calls[i]? = some c → CallOk i s.shared c
  stops : ∀ j c, s.stops[j]? = some c → StopOk j s.shared c
  callHolder : ∀ i, s.shared.lock = some (.delay i) → i < s.calls.length
  stopHolder : ∀ j, s.shared.lock = some (.stop j) → j < s.stops.length
  closed : s.shared.closed = true → s.shared.stopped = true
  tracked : s.shared.tracked = s.calls.countP Call.inTracker
  active : s.shared.activeTasks = s.calls.countP Call.inActive
  queue : ∀ m, s.shared.metrics = some m → m.waitQueueLength = s.calls.countP Call.inQueue

theorem ok_init (metrics : Bool) (clock : Instant) : Ok (init metrics clock) where
  calls := by simp [init]
  stops := by simp [init]
  callHolder := by simp [init]
  stopHolder := by simp [init]
  closed := by simp [init]
  tracked := rfl
  active := rfl
  queue m hm := by
    cases metrics <;> simp [init] at hm
    subst hm
    rfl

theorem countP_set {q : Call → Bool} {calls : List Call} {i : ℕ} {c c' : Call}
    (h : calls[i]? = some c) :
    ((calls.set i c').countP q : ℤ) = calls.countP q + ind (q c') - ind (q c) := by
  obtain ⟨hlt, rfl⟩ := List.getElem?_eq_some_iff.mp h
  have hpos : q calls[i] = true → 0 < calls.countP q := fun hq =>
    List.countP_pos_iff.mpr ⟨_, List.getElem_mem hlt, hq⟩
  rw [List.countP_set hlt]
  by_cases hq : q calls[i] = true <;> by_cases hq' : q c' = true <;> simp [hq, hq', ind]
  · have := hpos hq
    omega
  · have := hpos hq
    omega

/-- A step of one call or its task. -/
theorem Ok.setCall {s : State} {i : ℕ} {c c' : Call} {p' : Shared} (h : Ok s)
    (hc : s.calls[i]? = some c) (hok : CallOk i p' c') (he : Effect i c c' s.shared p') :
    Ok { s with calls := s.calls.set i c', shared := p' } := by
  have hlt : i < s.calls.length := (List.getElem?_eq_some_iff.mp hc).1
  refine ⟨?_, ?_, ?_, ?_, ?_, ?_, ?_, ?_⟩
  · intro j d hd
    by_cases hij : i = j
    · subst hij
      rw [List.getElem?_set_self hlt] at hd
      cases hd
      exact hok
    · rw [List.getElem?_set_ne hij] at hd
      refine (h.calls j d hd).frame (he.lock _ ?_) he.clock.ge ?_ ?_
      · simpa using Ne.symm hij
      · intro k hk
        rw [he.cancelled]
        exact hk
      · intro hstopped
        exact .inl (he.stopped ▸ hstopped)
  · intro j d hd
    have hstop := h.stops j d hd
    refine ⟨hstop.lock.trans (he.lock _ (by simp)).symm, ?_, ?_, ?_⟩
    · intro hpc
      exact he.stopped.trans (hstop.marked hpc)
    · intro hpc
      exact he.closed.trans (hstop.closed hpc)
    · -- Nothing is admitted any more, and there is nothing left to retire.
      intro hpc
      have hzero := hstop.drained hpc
      have hstopped := h.closed (hstop.closed (.inr (.inr hpc)))
      have hout : c.inTracker = false := by
        have hcount := h.tracked
        rw [hzero] at hcount
        have hnone := List.countP_eq_zero.mp (Int.natCast_eq_zero.mp hcount.symm)
        exact Bool.eq_false_iff.mpr (hnone c (List.mem_of_getElem? hc))
      have hout' : c'.inTracker = false := by
        rw [← Bool.not_eq_true]
        intro hin
        exact absurd (he.admitted hout hin) (by simp [hstopped])
      show p'.tracked = 0
      rw [he.tracked, hzero, hout, hout']
      rfl
  · intro j hj
    rw [List.length_set]
    by_cases hij : i = j
    · exact hij ▸ hlt
    · exact h.callHolder j ((he.lock _ (by simpa using Ne.symm hij)).mp hj)
  · intro j hj
    exact h.stopHolder j ((he.lock _ (by simp)).mp hj)
  · intro hclosed
    exact he.stopped.trans (h.closed (he.closed ▸ hclosed))
  · rw [countP_set hc, ← h.tracked]
    exact he.tracked
  · rw [countP_set hc, ← h.active]
    exact he.active
  · intro m' hm'
    have hqueue := he.queue
    rw [show p'.metrics = some m' from hm', Option.map_some, eq_comm,
      Option.map_eq_some_iff] at hqueue
    obtain ⟨m, hm, hvalue⟩ := hqueue
    rw [countP_set hc, ← h.queue m hm]
    exact hvalue.symm

/-- What one step of a stop does to the shared state. -/
structure StopEffect (j : ℕ) (p p' : Shared) : Prop where
  lock : ∀ h, h ≠ .stop j → (p'.lock = some h ↔ p.lock = some h)
  clock : p'.clock = p.clock
  cancelled : p'.cancelled = p.cancelled
  marks : p'.stopped = p.stopped ∨ p'.stopped = true ∧ p.lock = some (.stop j)
  closes : p'.closed = p.closed ∨ p'.closed = true ∧ p.stopped = true
  tracked : p'.tracked = p.tracked
  active : p'.activeTasks = p.activeTasks
  queue : p'.metrics.map Metrics.waitQueueLength = p.metrics.map Metrics.waitQueueLength

theorem stopStep_effect {j : ℕ} {c c' : StopCall} {p p' : Shared} {a : StopAction}
    (h : StopOk j p c) (hs : stopStep j c p a = some (c', p')) : StopEffect j p p' := by
  have hlock := h.lock
  have hmarked := h.marked
  cases a with
  | lock =>
    simp only [stopStep, Option.ite_none_right_eq_some] at hs
    obtain ⟨⟨_, hnone⟩, hs⟩ := hs
    cases hs
    refine ⟨?_, rfl, rfl, .inl rfl, .inl rfl, rfl, rfl, rfl⟩
    intro holder hne
    simp [hnone, hne.symm]
  | mark =>
    simp only [stopStep, Option.ite_none_right_eq_some] at hs
    obtain ⟨hpc, hs⟩ := hs
    cases hs
    exact ⟨fun _ _ => Iff.rfl, rfl, rfl, .inr ⟨rfl, hlock.mp (.inl hpc)⟩, .inl rfl, rfl, rfl, rfl⟩
  | close =>
    simp only [stopStep, Option.ite_none_right_eq_some] at hs
    obtain ⟨hpc, hs⟩ := hs
    cases hs
    refine ⟨?_, rfl, rfl, .inl rfl, .inr ⟨rfl, hmarked hpc⟩, rfl, rfl, rfl⟩
    intro holder hne
    simp [hlock.mp (.inr hpc), hne.symm]
  | timeout =>
    simp only [stopStep, Option.ite_none_right_eq_some] at hs
    obtain ⟨_, hs⟩ := hs
    cases hs
    refine ⟨fun _ _ => Iff.rfl, rfl, rfl, .inl rfl, .inl rfl, rfl, rfl, ?_⟩
    simp [Shared.setMetrics, Function.comp_def]
  | tasksDone =>
    simp only [stopStep, Option.ite_none_right_eq_some] at hs
    obtain ⟨_, hs⟩ := hs
    cases hs
    exact ⟨fun _ _ => Iff.rfl, rfl, rfl, .inl rfl, .inl rfl, rfl, rfl, rfl⟩

theorem stopStep_ok {j : ℕ} {c c' : StopCall} {p p' : Shared} {a : StopAction}
    (h : StopOk j p c) (hs : stopStep j c p a = some (c', p')) : StopOk j p' c' := by
  have hlock := h.lock
  cases a with
  | lock =>
    simp only [stopStep, Option.ite_none_right_eq_some] at hs
    obtain ⟨_, hs⟩ := hs
    cases hs
    exact ⟨by simp, by simp, by simp, by simp⟩
  | mark =>
    simp only [stopStep, Option.ite_none_right_eq_some] at hs
    obtain ⟨hpc, hs⟩ := hs
    cases hs
    exact ⟨by simp [hlock.mp (.inl hpc)], by simp, by simp, by simp⟩
  | close =>
    simp only [stopStep, Option.ite_none_right_eq_some] at hs
    obtain ⟨hpc, hs⟩ := hs
    cases hs
    exact ⟨by simp, by simp, by simp, by simp⟩
  | timeout =>
    simp only [stopStep, Option.ite_none_right_eq_some] at hs
    obtain ⟨⟨hpc, _⟩, hs⟩ := hs
    cases hs
    have hfree : p.lock ≠ some (.stop j) := mt hlock.mpr (by simp [hpc])
    exact ⟨by simpa [Shared.setMetrics] using hfree, by simp, fun _ => h.closed (.inl hpc), by simp⟩
  | tasksDone =>
    simp only [stopStep, Option.ite_none_right_eq_some] at hs
    obtain ⟨⟨hpc, hclosed, hzero⟩, hs⟩ := hs
    cases hs
    have hfree : p.lock ≠ some (.stop j) := mt hlock.mpr (by obtain hpc | hpc := hpc <;> simp [hpc])
    exact ⟨by simpa using hfree, by simp, fun _ => hclosed, fun _ => hzero⟩

/-- A step of one stop. -/
theorem Ok.setStop {s : State} {j : ℕ} {c c' : StopCall} {p' : Shared} (h : Ok s)
    (hc : s.stops[j]? = some c) (hok : StopOk j p' c') (he : StopEffect j s.shared p') :
    Ok { s with stops := s.stops.set j c', shared := p' } := by
  have hlt : j < s.stops.length := (List.getElem?_eq_some_iff.mp hc).1
  have hstopped : s.shared.stopped = true → p'.stopped = true := by
    intro hstop
    obtain hsame | ⟨htrue, _⟩ := he.marks
    · exact hsame.trans hstop
    · exact htrue
  refine ⟨?_, ?_, ?_, ?_, ?_, he.tracked.trans h.tracked, he.active.trans h.active, ?_⟩
  · intro i d hd
    refine (h.calls i d hd).frame (he.lock _ (by simp)) he.clock.ge ?_ ?_
    · intro k hk
      rw [he.cancelled]
      exact hk
    · intro hstop
      obtain hsame | ⟨_, hheld⟩ := he.marks
      · exact .inl (hsame ▸ hstop)
      · exact .inr fun i => by simp [hheld]
  · intro k d hd
    by_cases hjk : j = k
    · subst hjk
      rw [List.getElem?_set_self hlt] at hd
      cases hd
      exact hok
    · rw [List.getElem?_set_ne hjk] at hd
      have hstop := h.stops k d hd
      refine ⟨hstop.lock.trans (he.lock _ (by simpa using Ne.symm hjk)).symm, ?_, ?_, ?_⟩
      · exact fun hpc => hstopped (hstop.marked hpc)
      · intro hpc
        obtain hsame | ⟨htrue, _⟩ := he.closes
        · exact hsame.trans (hstop.closed hpc)
        · exact htrue
      · exact fun hpc => he.tracked.trans (hstop.drained hpc)
  · intro i hi
    exact h.callHolder i ((he.lock _ (by simp)).mp hi)
  · intro k hk
    rw [List.length_set]
    by_cases hjk : j = k
    · exact hjk ▸ hlt
    · exact h.stopHolder k ((he.lock _ (by simpa using Ne.symm hjk)).mp hk)
  · intro hclosed
    obtain hsame | ⟨_, hstop⟩ := he.closes
    · exact hstopped (h.closed (hsame ▸ hclosed))
    · exact hstopped hstop
  · intro m' hm'
    have hqueue := he.queue
    rw [show p'.metrics = some m' from hm', Option.map_some, eq_comm,
      Option.map_eq_some_iff] at hqueue
    obtain ⟨m, hm, hvalue⟩ := hqueue
    exact hvalue.symm.trans (h.queue m hm)

/-- The clock and the tokens go on. -/
theorem Ok.setTime {s : State} {clock : Instant} {cancelled : ℕ → Bool} (h : Ok s)
    (hclock : s.shared.clock ≤ clock)
    (hcancelled : ∀ k, s.shared.cancelled k = true → cancelled k = true) :
    Ok { s with shared := { s.shared with clock := clock, cancelled := cancelled } } where
  calls i c hc := (h.calls i c hc).frame Iff.rfl hclock hcancelled fun hs => .inl hs
  stops j c hc :=
    ⟨(h.stops j c hc).lock, (h.stops j c hc).marked, (h.stops j c hc).closed,
      (h.stops j c hc).drained⟩
  callHolder := h.callHolder
  stopHolder := h.stopHolder
  closed := h.closed
  tracked := h.tracked
  active := h.active
  queue := h.queue

theorem Ok.addCall {s : State} (h : Ok s) (context : Context) (duration : Duration) :
    Ok { s with calls := s.calls ++ [⟨context, duration, .called, none, .absent, []⟩] } := by
  have hfree : s.shared.lock ≠ some (.delay s.calls.length) :=
    fun hheld => absurd (h.callHolder _ hheld) (lt_irrefl _)
  refine ⟨?_, h.stops, ?_, h.stopHolder, h.closed, ?_, ?_, ?_⟩
  · intro i c hc
    rw [List.getElem?_append] at hc
    split at hc
    case isTrue => exact h.calls i c hc
    case isFalse hge =>
      rw [List.getElem?_singleton] at hc
      obtain ⟨hi, hc⟩ := Option.ite_none_right_eq_some.mp hc
      cases hc
      obtain rfl : i = s.calls.length := by omega
      exact ⟨by simp [Pc.hasTask], by simp [Pc.isScheduled], by simp, by simp [Task.isStarted],
        by simp, by simpa [Pc.holdsLock] using hfree, by simp [Pc.isAdmitting]⟩
  · intro i hi
    rw [List.length_append]
    exact Nat.lt_add_right _ (h.callHolder i hi)
  · rw [List.countP_append]
    exact h.tracked
  · rw [List.countP_append]
    exact h.active
  · intro m hm
    rw [List.countP_append]
    exact h.queue m hm

theorem Ok.addStop {s : State} (h : Ok s) (context : Context) :
    Ok { s with stops := s.stops ++ [⟨context, .called⟩] } := by
  have hfree : s.shared.lock ≠ some (.stop s.stops.length) :=
    fun hheld => absurd (h.stopHolder _ hheld) (lt_irrefl _)
  refine ⟨h.calls, ?_, h.callHolder, ?_, h.closed, h.tracked, h.active, h.queue⟩
  · intro j c hc
    rw [List.getElem?_append] at hc
    split at hc
    case isTrue => exact h.stops j c hc
    case isFalse hge =>
      rw [List.getElem?_singleton] at hc
      obtain ⟨hj, hc⟩ := Option.ite_none_right_eq_some.mp hc
      cases hc
      obtain rfl : j = s.stops.length := by omega
      exact ⟨by simpa using hfree, by simp, by simp, by simp⟩
  · intro j hj
    rw [List.length_append]
    exact Nat.lt_add_right _ (h.stopHolder j hj)

theorem ok_step {s t : State} {a : Action} (h : Ok s) (hs : step s a = some t) : Ok t := by
  unfold step at hs
  split at hs
  case isTrue => cases hs
  case isFalse =>
    cases a with
    | delay context duration =>
      cases hs
      exact h.addCall context duration
    | call i a =>
      obtain ⟨c, hc, hs⟩ := Option.bind_eq_some_iff.mp hs
      obtain ⟨⟨c', p'⟩, hr, rfl⟩ := Option.map_eq_some_iff.mp hs
      exact h.setCall hc (delayStep_ok (h.calls i c hc) hr) (delayStep_effect (h.calls i c hc) hr)
    | task i a =>
      obtain ⟨c, hc, hs⟩ := Option.bind_eq_some_iff.mp hs
      obtain ⟨⟨c', p'⟩, hr, rfl⟩ := Option.map_eq_some_iff.mp hs
      exact h.setCall hc (taskStep_ok (h.calls i c hc) hr) (taskStep_effect (h.calls i c hc) hr)
    | panic i =>
      obtain ⟨c, _, hs⟩ := Option.bind_eq_some_iff.mp hs
      obtain ⟨_, hs⟩ := Option.ite_none_right_eq_some.mp hs
      cases hs
      exact ⟨h.calls, h.stops, h.callHolder, h.stopHolder, h.closed, h.tracked, h.active, h.queue⟩
    | stop context =>
      cases hs
      exact h.addStop context
    | stopCall j a =>
      obtain ⟨c, hc, hs⟩ := Option.bind_eq_some_iff.mp hs
      obtain ⟨⟨c', p'⟩, hr, rfl⟩ := Option.map_eq_some_iff.mp hs
      exact h.setStop hc (stopStep_ok (h.stops j c hc) hr) (stopStep_effect (h.stops j c hc) hr)
    | cancel token =>
      cases hs
      refine h.setTime le_rfl fun k hk => ?_
      by_cases hkt : k = token
      · rw [hkt, Function.update_self]
      · rw [Function.update_of_ne hkt]
        exact hk
    | tick clock =>
      obtain ⟨hle, hs⟩ := Option.ite_none_right_eq_some.mp hs
      cases hs
      exact h.setTime hle fun _ hk => hk

theorem ok_reachable {metrics : Bool} {clock : Instant} {s : State}
    (h : (system metrics clock).Reachable s) : Ok s :=
  System.Reachable.invariant (I := Ok) (ok_init metrics clock)
    (fun _ a _ hi hs => ok_step (a := a) hi hs) h

/-! ## Progress -/

/-- The steps that a task has before it, at most. -/
def Task.rank : Task → ℕ
  | .absent => 8
  | .spawned => 7
  | .waiting => 6
  | .ready _ => 5
  | .running => 4
  | .finished => 3
  | .dequeued => 2
  | .released => 1
  | .retired => 0

/-- A step of a task brings it forward, and leaves the call alone. -/
theorem taskStep_forward {c c' : Call} {p p' : Shared} {a : TaskAction}
    (hs : taskStep c p a = some (c', p')) :
    c'.task.rank < c.task.rank ∧ c'.pc = c.pc ∧ c'.schedule = c.schedule := by
  cases a with
  | poll =>
    simp only [taskStep] at hs
    split at hs
    case h_2 => cases hs
    case h_1 schedule htask _ =>
      split at hs <;> cases hs <;> simp [htask, Task.rank]
  | fire =>
    simp only [taskStep] at hs
    split at hs
    case h_2 => cases hs
    case h_1 schedule htask _ =>
      obtain ⟨_, hs⟩ := Option.ite_none_right_eq_some.mp hs
      cases hs
      simp [htask, Task.rank]
  | wake =>
    simp only [taskStep, Option.ite_none_right_eq_some] at hs
    obtain ⟨⟨htask, _⟩, hs⟩ := hs
    cases hs
    simp [htask, Task.rank]
  | start =>
    simp only [taskStep] at hs
    split at hs
    case h_2 => cases hs
    case h_1 cancelled htask =>
      cases hs
      simp [htask, Task.rank]
  | _ =>
    simp only [taskStep, Option.ite_none_right_eq_some] at hs
    obtain ⟨htask, hs⟩ := hs
    cases hs
    simp [htask, Task.rank]

/-- Only the clock can hold a task up. -/
theorem taskStep_enabled {c : Call} {p : Shared} {schedule : Schedule}
    (hschedule : c.schedule = some schedule) (hle : schedule.runAt ≤ p.clock)
    (habsent : c.task ≠ .absent) (hretired : c.task ≠ .retired) :
    ∃ a, (taskStep c p a).isSome = true := by
  cases htask : c.task with
  | absent => exact absurd htask habsent
  | spawned => exact ⟨.poll, by simp [taskStep, htask, hschedule, hle]⟩
  | waiting => exact ⟨.fire, by simp [taskStep, htask, hschedule, hle]⟩
  | ready cancelled => exact ⟨.start, by simp [taskStep, htask]⟩
  | running => exact ⟨.finish, by simp [taskStep, htask]⟩
  | finished => exact ⟨.dequeue, by simp [taskStep, htask]⟩
  | dequeued => exact ⟨.release, by simp [taskStep, htask]⟩
  | released => exact ⟨.retire, by simp [taskStep, htask]⟩
  | retired => exact absurd htask hretired

/-- The steps of the task of a call. -/
def OfTask (i : ℕ) (a : Action) : Prop := ∃ b, a = .task i b

theorem delayStep_returned {i : ℕ} {c : Call} {p : Shared} {a : DelayAction}
    {result : RuntimeResult Unit} (hpc : c.pc = .returned result) :
    delayStep i c p a = none := by
  cases a <;> simp [delayStep, hpc]

/-- What a step does to a call that has returned: nothing, or it brings its task forward. -/
theorem step_returned {s t : State} {a : Action} {i : ℕ} {c : Call} {result : RuntimeResult Unit}
    (h : Ok s) (hs : step s a = some t) (hc : s.calls[i]? = some c)
    (hpc : c.pc = .returned result) :
    ∃ c', t.calls[i]? = some c' ∧ c'.pc = c.pc ∧ c'.schedule = c.schedule ∧
      s.shared.clock ≤ t.shared.clock ∧ c'.task.rank ≤ c.task.rank ∧
      (OfTask i a → c'.task.rank < c.task.rank) := by
  have hlt : i < s.calls.length := (List.getElem?_eq_some_iff.mp hc).1
  unfold step at hs
  split at hs
  case isTrue => cases hs
  case isFalse =>
    cases a with
    | delay context duration =>
      cases hs
      refine ⟨c, ?_, rfl, rfl, le_rfl, le_rfl, by simp [OfTask]⟩
      rw [List.getElem?_append_left hlt]
      exact hc
    | call j a =>
      obtain ⟨d, hd, hs⟩ := Option.bind_eq_some_iff.mp hs
      obtain ⟨⟨d', p'⟩, hr, rfl⟩ := Option.map_eq_some_iff.mp hs
      have hji : j ≠ i := by
        rintro rfl
        obtain rfl := Option.some.inj (hc.symm.trans hd)
        rw [delayStep_returned hpc] at hr
        cases hr
      refine ⟨c, ?_, rfl, rfl, ?_, le_rfl, by simp [OfTask]⟩
      · rw [List.getElem?_set_ne hji]
        exact hc
      · exact (delayStep_effect (h.calls j d hd) hr).clock.ge
    | task j a =>
      obtain ⟨d, hd, hs⟩ := Option.bind_eq_some_iff.mp hs
      obtain ⟨⟨d', p'⟩, hr, rfl⟩ := Option.map_eq_some_iff.mp hs
      have hclock := (taskStep_effect (h.calls j d hd) hr).clock.ge
      by_cases hji : j = i
      · subst hji
        obtain rfl := Option.some.inj (hc.symm.trans hd)
        obtain ⟨hrank, hpc', hschedule⟩ := taskStep_forward hr
        exact ⟨d', List.getElem?_set_self hlt, hpc', hschedule, hclock, hrank.le, fun _ => hrank⟩
      · refine ⟨c, ?_, rfl, rfl, hclock, le_rfl, ?_⟩
        · rw [List.getElem?_set_ne hji]
          exact hc
        · intro ⟨b, hb⟩
          exact absurd (Action.task.inj hb).1 hji
    | panic j =>
      obtain ⟨d, _, hs⟩ := Option.bind_eq_some_iff.mp hs
      obtain ⟨_, hs⟩ := Option.ite_none_right_eq_some.mp hs
      cases hs
      exact ⟨c, hc, rfl, rfl, le_rfl, le_rfl, by simp [OfTask]⟩
    | stop context =>
      cases hs
      exact ⟨c, hc, rfl, rfl, le_rfl, le_rfl, by simp [OfTask]⟩
    | stopCall j a =>
      obtain ⟨d, hd, hs⟩ := Option.bind_eq_some_iff.mp hs
      obtain ⟨⟨d', p'⟩, hr, rfl⟩ := Option.map_eq_some_iff.mp hs
      exact ⟨c, hc, rfl, rfl, (stopStep_effect (h.stops j d hd) hr).clock.ge, le_rfl,
        by simp [OfTask]⟩
    | cancel token =>
      cases hs
      exact ⟨c, hc, rfl, rfl, le_rfl, le_rfl, by simp [OfTask]⟩
    | tick clock =>
      obtain ⟨hle, hs⟩ := Option.ite_none_right_eq_some.mp hs
      cases hs
      exact ⟨c, hc, rfl, rfl, hle, le_rfl, by simp [OfTask]⟩

/-- The rank of the task of a call. -/
def rankOf (i : ℕ) (s : State) : ℕ := ((s.calls[i]?).map fun c => c.task.rank).getD 0

/-- An accepted call whose callback is due by the clock. -/
def Overdue (i : ℕ) (schedule : Schedule) (s : State) : Prop :=
  Ok s ∧ ∃ c, s.calls[i]? = some c ∧ c.pc = .returned (.ok ()) ∧ c.schedule = some schedule ∧
    schedule.runAt ≤ s.shared.clock

/-- The task of a call is done. -/
def Retired (i : ℕ) (s : State) : Prop := ∃ c, s.calls[i]? = some c ∧ c.task = .retired

theorem rankOf_eq {i : ℕ} {s : State} {c : Call} (hc : s.calls[i]? = some c) :
    rankOf i s = c.task.rank := by
  rw [rankOf, hc]
  rfl

theorem exited_of_step {s t : State} {a : Action} (hs : step s a = some t) : s.exited = false := by
  unfold step at hs
  split at hs
  case isTrue => cases hs
  case isFalse hexited => exact Bool.eq_false_iff.mpr hexited

theorem step_task {s : State} {i : ℕ} {c : Call} {a : TaskAction} (hexited : s.exited = false)
    (hc : s.calls[i]? = some c) (ha : (taskStep c s.shared a).isSome = true) :
    (step s (.task i a)).isSome = true := by
  simp [step, hexited, hc, ha]

/-- **Progress.** On a run that is fair to the task of an accepted call and on which the clock gets
to its due time, the task retires. -/
theorem eventually_retired {metrics : Bool} {clock : Instant} {s : State} {i : ℕ} {c : Call}
    {schedule : Schedule} (h : Ok s) (hc : s.calls[i]? = some c)
    (hpc : c.pc = .returned (.ok ())) (hschedule : c.schedule = some schedule)
    (x : (system metrics clock).Execution s) (hfair : x.Fair (OfTask i))
    (hclock : ∃ n, schedule.runAt ≤ (x.state n).shared.clock) :
    ∃ n, Retired i (x.state n) := by
  have haccepted : ∀ n, Ok (x.state n) ∧ ∃ c, (x.state n).calls[i]? = some c ∧
      c.pc = .returned (.ok ()) ∧ c.schedule = some schedule := by
    intro n
    induction n with
    | zero =>
      rw [x.start]
      exact ⟨h, c, hc, hpc, hschedule⟩
    | succ n ih =>
      obtain ⟨hok, d, hd, hdpc, hds⟩ := ih
      obtain ⟨d', hd', hpc', hs', -⟩ := step_returned hok (x.next n) hd hdpc
      exact ⟨ok_step hok (x.next n), d', hd', hpc'.trans hdpc, hs'.trans hds⟩
  have hkeep : ∀ n, Overdue i schedule (x.state n) → Overdue i schedule (x.state (n + 1)) ∧
      rankOf i (x.state (n + 1)) ≤ rankOf i (x.state n) ∧
      (OfTask i (x.action n) → rankOf i (x.state (n + 1)) < rankOf i (x.state n)) := by
    intro n ⟨hok, d, hd, hdpc, hds, hle⟩
    obtain ⟨d', hd', hpc', hs', htime, hrank, hmine⟩ := step_returned hok (x.next n) hd hdpc
    rw [rankOf_eq hd, rankOf_eq hd']
    exact ⟨⟨ok_step hok (x.next n), d', hd', hpc'.trans hdpc, hs'.trans hds, hle.trans htime⟩,
      hrank, hmine⟩
  have henabled : ∀ n, Overdue i schedule (x.state n) →
      ¬ Retired i (x.state n) → ∃ a, OfTask i a ∧ ((system metrics clock).step (x.state n) a).isSome = true := by
    intro n ⟨hok, d, hd, hdpc, hds, hle⟩ hnot
    have habsent : d.task ≠ .absent := by
      intro hnone
      have hhas := (hok.calls i d hd).task.mp hnone
      rw [hdpc] at hhas
      cases hhas
    obtain ⟨a, ha⟩ := taskStep_enabled hds hle habsent fun hretired => hnot ⟨d, hd, hretired⟩
    exact ⟨_, ⟨a, rfl⟩, step_task (exited_of_step (x.next n)) hd ha⟩
  obtain ⟨n, hle⟩ := hclock
  obtain ⟨hok, d, hd, hdpc, hds⟩ := haccepted n
  obtain ⟨m, -, hretired⟩ := x.eventually_of_rank hfair (rankOf i)
    (fun n hn => ⟨(hkeep n hn).1, (hkeep n hn).2.1⟩) (fun n hn => (hkeep n hn).2.2) henabled
    ⟨hok, d, hd, hdpc, hds, hle⟩
  exact ⟨m, hretired⟩

/-! ## Exactly once -/

/-- No call is between its counters: none is being admitted, and no task has finished its callback
without having left the counters. -/
def Settled (s : State) : Prop :=
  ∀ c ∈ s.calls, c.pc.isAdmitting = false ∧ c.task ≠ .finished ∧ c.task ≠ .dequeued

/-- An accepted callback that has not finished. -/
def Call.isUnfinished (c : Call) : Bool :=
  decide (c.pc = .returned (.ok ())) && !c.task.isFinished

theorem CallOk.inActive_eq {i : ℕ} {p : Shared} {c : Call} (h : CallOk i p c)
    (hadmitting : c.pc.isAdmitting = false) (hfinished : c.task ≠ .finished)
    (hdequeued : c.task ≠ .dequeued) :
    c.inActive = c.isUnfinished ∧ c.inQueue = c.isUnfinished := by
  have htask := h.task
  rw [Call.inActive, Call.inQueue, Call.isUnfinished]
  cases hpc : c.pc with
  | returned result =>
    cases result with
    | ok u => cases ht : c.task <;> simp_all [Pc.hasTask, Pc.isCounted, Pc.isQueued, Task.isActive,
        Task.isQueued, Task.isFinished]
    | error e =>
      rw [hpc] at htask
      rw [htask.mpr rfl]
      simp [Pc.isCounted, Pc.isQueued, Task.isActive, Task.isQueued]
  | queued => simp [hpc, Pc.isAdmitting] at hadmitting
  | counted => simp [hpc, Pc.isAdmitting] at hadmitting
  | spawned => simp [hpc, Pc.isAdmitting] at hadmitting
  | _ =>
    rw [hpc] at htask
    rw [htask.mpr rfl]
    simp [Pc.isCounted, Pc.isQueued, Task.isActive, Task.isQueued]

theorem Ok.settled {s : State} (h : Ok s) (hsettled : Settled s) :
    s.shared.activeTasks = s.calls.countP Call.isUnfinished ∧
    ∀ m, s.shared.metrics = some m → m.waitQueueLength = s.calls.countP Call.isUnfinished := by
  have heq : ∀ c ∈ s.calls, c.inActive = c.isUnfinished ∧ c.inQueue = c.isUnfinished := by
    intro c hmem
    obtain ⟨i, hc⟩ := List.mem_iff_getElem?.mp hmem
    obtain ⟨hadmitting, hfinished, hdequeued⟩ := hsettled c hmem
    exact (h.calls i c hc).inActive_eq hadmitting hfinished hdequeued
  constructor
  · rw [h.active, List.countP_congr fun c hmem => by rw [(heq c hmem).1]]
  · intro m hm
    rw [h.queue m hm, List.countP_congr fun c hmem => by rw [(heq c hmem).2]]

/-- Whoever has left the tracker has run once. -/
theorem Ok.retired_of_drained {s : State} {i : ℕ} {c : Call} (h : Ok s)
    (hc : s.calls[i]? = some c) (hpc : c.pc = .returned (.ok ())) (hzero : s.shared.tracked = 0) :
    c.task = .retired := by
  have hcount := h.tracked
  rw [hzero] at hcount
  have hnone := List.countP_eq_zero.mp (Int.natCast_eq_zero.mp hcount.symm)
  have hout := hnone c (List.mem_of_getElem? hc)
  have htask := (h.calls i c hc).task
  rw [hpc] at htask
  rw [Call.inTracker] at hout
  cases ht : c.task <;> simp_all [Task.isTracked, Pc.hasTask]

/-- The callback of an accepted call: started at most once, when it was due, and once when it has
finished. -/
theorem CallOk.once {i : ℕ} {p : Shared} {c : Call} (h : CallOk i p c)
    (hpc : c.pc = .returned (.ok ())) :
    ∃ schedule, c.schedule = some schedule ∧
      (∀ start ∈ c.starts, start.cancelled = true ∨
        dueNanos schedule.now c.duration c.context.deadline ≤ start.clock.asNanos) ∧
      c.starts.length ≤ 1 ∧ (c.task.isStarted = true → c.starts.length = 1) := by
  obtain ⟨schedule, hschedule, hrun⟩ := h.scheduled (by rw [hpc]; rfl)
  refine ⟨schedule, hschedule, ?_⟩
  cases hstarted : c.task.isStarted with
  | false => simp [h.notStarted hstarted]
  | true =>
    obtain ⟨start, hstarts, hdue⟩ := h.started hstarted
    simp only [hstarts, List.mem_singleton, forall_eq, List.length_singleton, le_refl,
      implies_true, and_true]
    obtain hcancelled | ⟨schedule', hschedule', hle⟩ := hdue
    · exact .inl hcancelled
    · obtain rfl := Option.some.inj (hschedule.symm.trans hschedule')
      exact .inr (hrun ▸ Instant.le_iff.mp hle)

/-- **The delay pool.** The callback of a call that returned `Ok` is started at most once, not
before it is due unless its context was cancelled; it has run once when any `stop` has returned,
however that stop got there, and it does run on every run that is fair to it. The callback of a call
that returned an error is never started. With no call between its counters, both of them are the
number of accepted callbacks that have not finished. -/
theorem delay_exactly_once {metrics : Bool} {clock : Instant} {s : State}
    (h : (system metrics clock).Reachable s) :
    (∀ i c, s.calls[i]? = some c → c.pc = .returned (.ok ()) →
      ∃ schedule, c.schedule = some schedule ∧
        (∀ start ∈ c.starts, start.cancelled = true ∨
          dueNanos schedule.now c.duration c.context.deadline ≤ start.clock.asNanos) ∧
        c.starts.length ≤ 1 ∧ (c.task.isFinished = true → c.starts.length = 1) ∧
        (∀ stop ∈ s.stops, stop.pc = .returned →
          c.task.isFinished = true ∧ c.starts.length = 1) ∧
        (∀ x : (system metrics clock).Execution s, x.Fair (OfTask i) →
          (∃ n, schedule.runAt ≤ (x.state n).shared.clock) →
          ∃ n c', (x.state n).calls[i]? = some c' ∧ c'.task.isFinished = true ∧
            c'.starts.length = 1)) ∧
    (∀ c ∈ s.calls, ∀ e, c.pc = .returned (.error e) → c.starts = []) ∧
    (Settled s → s.shared.activeTasks = s.calls.countP Call.isUnfinished ∧
      ∀ m, s.shared.metrics = some m → m.waitQueueLength = s.calls.countP Call.isUnfinished) := by
  have hok := ok_reachable h
  have hfinished : ∀ task : Task, task.isFinished = true → task.isStarted = true := by
    intro task
    cases task <;> simp [Task.isFinished, Task.isStarted]
  refine ⟨?_, ?_, hok.settled⟩
  · intro i c hc hpc
    obtain ⟨schedule, hschedule, hdue, hle, hone⟩ := (hok.calls i c hc).once hpc
    refine ⟨schedule, hschedule, hdue, hle, fun hf => hone (hfinished _ hf), ?_, ?_⟩
    · intro stop hstop hreturned
      obtain ⟨j, hj⟩ := List.mem_iff_getElem?.mp hstop
      have hretired := hok.retired_of_drained hc hpc ((hok.stops j stop hj).drained hreturned)
      rw [hretired] at hone ⊢
      exact ⟨rfl, hone rfl⟩
    · intro x hfair hclock
      obtain ⟨n, c', hc', hretired⟩ := eventually_retired hok hc hpc hschedule x hfair hclock
      have hok' : Ok (x.state n) := x.stable (P := Ok) (fun _ a _ hi hs => ok_step (a := a) hi hs)
        (Nat.zero_le n) (by rw [x.start]; exact hok)
      obtain ⟨start, hstarts, -⟩ := (hok'.calls i c' hc').started (by rw [hretired]; rfl)
      exact ⟨n, c', hc', by rw [hretired]; rfl, by rw [hstarts]; rfl⟩
  · intro c hmem e hpc
    obtain ⟨i, hc⟩ := List.mem_iff_getElem?.mp hmem
    apply (hok.calls i c hc).notStarted
    rw [(hok.calls i c hc).task.mpr (by rw [hpc]; rfl)]
    rfl

/-- A callback is admitted, the pool is stopped with a context that is cancelled, a second call is
refused, and then the first callback becomes due. -/
def acceptedThenStopped : List Action :=
  [.delay ⟨0, none⟩ ⟨1, 0⟩, .call 0 .check, .call 0 .readClock, .call 0 .lock, .call 0 .observe,
    .call 0 .count, .call 0 .spawn, .call 0 .ret, .task 0 .poll, .stop ⟨1, none⟩,
    .stopCall 0 .lock, .stopCall 0 .mark, .stopCall 0 .close, .cancel 1, .stopCall 0 .timeout,
    .delay ⟨0, none⟩ ⟨1, 0⟩, .call 1 .check, .call 1 .readClock, .call 1 .lock, .call 1 .observe,
    .tick ⟨2, 0, by decide, by decide⟩, .task 0 .fire, .task 0 .start, .task 0 .finish,
    .task 0 .dequeue, .task 0 .release, .task 0 .retire, .stopCall 0 .tasksDone]

theorem acceptedThenStopped_runs :
    ((system true .zero).run (system true .zero).init acceptedThenStopped).isSome = true := by
  decide +kernel

theorem delay_exactly_once_acceptedThenStopped :
    ∃ s, (system true .zero).Reachable s ∧
      (∃ c, s.calls[0]? = some c ∧ c.pc = .returned (.ok ()) ∧ c.starts.length = 1) ∧
      (∃ c, s.calls[1]? = some c ∧ c.pc = .returned (.error (.resourceStopped "delay")) ∧
        c.starts = []) ∧
      s.stops.map StopCall.pc = [.returned] ∧ s.shared.activeTasks = 0 := by
  have h := System.reachable_get acceptedThenStopped_runs
  generalize hs : ((system true .zero).run (system true .zero).init acceptedThenStopped).get
    acceptedThenStopped_runs = s at h
  have hfacts : s.calls[0]?.map Call.pc = some (.returned (.ok ())) ∧
      s.calls[1]?.map Call.pc = some (.returned (.error (.resourceStopped "delay"))) ∧
      s.stops.map StopCall.pc = [.returned] ∧ s.calls.countP Call.isUnfinished = 0 ∧
      ∀ c ∈ s.calls, c.pc.isAdmitting = false ∧ c.task ≠ .finished ∧ c.task ≠ .dequeued := by
    rw [← hs]
    decide +kernel
  obtain ⟨hfirst, hsecond, hstops, hnone, hsettled⟩ := hfacts
  obtain ⟨haccepted, hrefused, hcounts⟩ := delay_exactly_once h
  obtain ⟨first, hfirst, hfirstPc⟩ := Option.map_eq_some_iff.mp hfirst
  obtain ⟨second, hsecond, hsecondPc⟩ := Option.map_eq_some_iff.mp hsecond
  obtain ⟨stop, hstop, hreturned⟩ : ∃ stop ∈ s.stops, stop.pc = .returned :=
    List.mem_map.mp (by rw [hstops]; exact List.mem_singleton_self _)
  obtain ⟨_, _, _, _, _, hdrained, _⟩ := haccepted 0 first hfirst hfirstPc
  refine ⟨s, h, ⟨first, hfirst, hfirstPc, (hdrained stop hstop hreturned).2⟩,
    ⟨second, hsecond, hsecondPc, ?_⟩, hstops, ?_⟩
  · exact hrefused second (List.mem_of_getElem? hsecond) _ hsecondPc
  · rw [(hcounts hsettled).1, hnone]
    rfl

end DelayPool

end ServiceLib
