import ServiceLib.Pool.PendingQueue
import ServiceLib.Runtime.Error
import ServiceLib.Transition
import ServiceLib.While

/-!
# The queued pool

Follows `QueuedPool` in `src/runtime/pool/queuedpool.rs`, the actor behind `TaskPool` and
`PriorityTaskPool`. Callers of `add_task`, `start`, `reload_config` and `stop` share two atomics and
send commands into one channel; the actor `run` owns the queue and the executors; every executor is
a task with an inbox that reports back through the same channel.

All of them are one transition system. Each access of a caller to an atomic or to the channel is an
action of its own, and a caller's future may be dropped where it awaits. The actor takes one branch
of its `select!` at a time: the branches are polled in order, `pollCancellations`, `recv`, `join`,
and a context may be cancelled between two polls. Handling what was polled and settling the
executors afterwards reads nothing that others write, so it is one action. A panic ends the actor
(`Actor.panicked`); what the process does after one is not modelled, because there is none.

A task is the number of the `add_task` call that brought it, and so is its reply channel. The
fields `dispatched` and `finished` record what the executors were handed and what they have run.
-/

namespace ServiceLib

namespace QueuedPool

/-! ## Data -/

/-- What does not change during the life of a pool. -/
structure Config where
  name : String
  priority : Bool
  fallbackExecutors : ℕ
  /-- `available_parallelism()`, or 1 where that is unknown. -/
  parallelism : ℕ+

def resolveExecutors (cfg : Config) (count : ℕ) : ℕ :=
  if count = 0 then cfg.parallelism else count

/-- `executors()`; `configured` is what the current runtime configuration says about the pool. -/
def executors (cfg : Config) (configured : Option ℕ) : ℕ :=
  resolveExecutors cfg (configured.getD cfg.fallbackExecutors)

inductive Command
  | add (context : ℕ) (priority : Int32) (task : ℕ)
  | start (count : ℕ)
  | resize (count : ℕ)
  | stop
  | ready (id : ℕ)
  deriving DecidableEq

/-- The task of an `Add`. -/
def Command.task : Command → Option ℕ
  | .add _ _ task => some task
  | _ => none

/-- A queued task with the handle that aborts its cancellation future; handles are task ids. -/
structure Entry where
  task : ℕ
  cancellation : ℕ
  deriving DecidableEq

/-- A member of the `FuturesUnordered`: it yields `Ok(id)` once the context is cancelled, or
`Err(Aborted)` once it is aborted. -/
structure Cancellation where
  id : ℕ
  context : ℕ
  aborted : Bool
  deriving DecidableEq

/-- The local variables of `run`. An executor's sender is known by the worker it leads to. -/
structure Run where
  queue : PendingQueue Entry
  cancellations : List Cancellation
  /-- The `JoinSet`. -/
  workers : Finset ℕ
  executors : Finset ℕ
  idle : List ℕ
  nextWorker : ℕ
  busy : ℕ
  retiring : Bool
  nextId : ℕ
  target : ℕ
  started : Bool
  stopped : Bool
  receiving : Bool

def Run.new (cfg : Config) (target : ℕ) : Run :=
  ⟨.new cfg.priority, [], ∅, ∅, [], 0, 0, false, 0, target, false, false, true⟩

inductive WorkerPc
  | unborn
  | receiving
  | running (task : ℕ)
  /-- About to send `Ready`. -/
  | reporting
  | exited
  deriving DecidableEq

structure Worker where
  pc : WorkerPc
  inbox : List ℕ
  deriving DecidableEq

/-- A oneshot channel, as its receiver sees it. -/
inductive Reply
  | pending
  | sent (result : RuntimeResult Unit)
  | closed
  deriving DecidableEq

inductive AddPc
  | idle
  | called
  /-- The context was not cancelled. -/
  | checked
  /-- The state was not stopped. -/
  | loaded
  | launched
  | waiting
  | returned (result : RuntimeResult Unit)
  | dropped
  deriving DecidableEq

structure AddCall where
  pc : AddPc
  context : ℕ
  priority : Int32
  reply : Reply
  deriving DecidableEq

inductive StartPc
  | idle
  | called
  /-- The exchange from created to started has succeeded. -/
  | claimed
  | launched
  | returned (result : RuntimeResult Unit)
  deriving DecidableEq

inductive StopPc
  | idle
  | called
  | launched
  /-- The swap found the pool not stopped before. -/
  | sending
  | waiting
  | returned
  | dropped
  deriving DecidableEq

/-- The `state` atomic. -/
inductive Lifecycle
  | created
  | started
  | stopped
  deriving DecidableEq

/-- The branches of the actor's `select!`, in the order in which they are polled. -/
inductive Branch
  | cancellations
  | commands
  | workers
  deriving DecidableEq

inductive Actor
  | absent
  /-- Spawned, but the receiver is not taken yet. -/
  | spawned
  /-- Inside a `select!` call, about to poll a branch; `disabled` once the pattern of the
  cancellation branch did not match. -/
  | select (next : Branch) (disabled : Bool)
  /-- `run` has returned. -/
  | returned
  | drained
  | panicked
  deriving DecidableEq

/-- The receiver of commands exists. -/
def Actor.open : Actor → Bool
  | .absent | .spawned | .select _ _ => true
  | .returned | .drained | .panicked => false

/-- A task given to a worker. The flags say whether, when the command that led to it was received,
the context of the task and that of some task in the queue were cancelled. -/
structure Dispatch where
  task : ℕ
  worker : ℕ
  cancelled : Bool
  cancelledQueued : Bool
  deriving DecidableEq

structure State where
  state : Lifecycle
  launched : Bool
  channel : List Command
  drained : Bool
  actor : Actor
  run : Run
  workers : ℕ → Worker
  adds : ℕ → AddCall
  starts : ℕ → StartPc
  stops : ℕ → StopPc
  /-- Which contexts are cancelled. -/
  cancelled : ℕ → Bool
  dispatched : List Dispatch
  /-- Tasks that have run, with their workers. -/
  finished : List (ℕ × ℕ)

def State.init (cfg : Config) : State where
  state := .created
  launched := false
  channel := []
  drained := false
  actor := .absent
  run := .new cfg (QueuedPool.executors cfg none)
  workers := fun _ => ⟨.unborn, []⟩
  adds := fun _ => ⟨.idle, 0, 0, .pending⟩
  starts := fun _ => .idle
  stops := fun _ => .idle
  cancelled := fun _ => false
  dispatched := []
  finished := []

namespace State

def setAdd (s : State) (i : ℕ) (c : AddCall) : State :=
  { s with adds := Function.update s.adds i c }

def setWorker (s : State) (w : ℕ) (x : Worker) : State :=
  { s with workers := Function.update s.workers w x }

/-- The actor's `reply.send(..)`; nobody may be waiting any more. -/
def reply (s : State) (task : ℕ) (result : RuntimeResult Unit) : State :=
  s.setAdd task { s.adds task with reply := .sent result }

end State

/-! ## Callers -/

def launch (s : State) : State :=
  if s.launched then s else { s with launched := true, actor := .spawned }

/-- `sender.send(..)`; `none` when the receiver is gone. -/
def send (s : State) (c : Command) : Option State :=
  if s.actor.open then some { s with channel := s.channel ++ [c] } else none

/-- The next step of an `add_task` call. -/
def stepAdd (cfg : Config) (s : State) (i : ℕ) : Option State :=
  let call := s.adds i
  match call.pc with
  | .idle | .returned _ | .dropped => none
  | .called =>
    if s.cancelled call.context then
      some (s.setAdd i { call with pc := .returned (.error .contextCancelled) })
    else some (s.setAdd i { call with pc := .checked })
  | .checked =>
    if s.state = .stopped then
      some (s.setAdd i { call with pc := .returned (.error (.resourceStopped cfg.name)) })
    else some (s.setAdd i { call with pc := .loaded })
  | .loaded => some ((launch s).setAdd i { call with pc := .launched })
  | .launched =>
    match send s (.add call.context call.priority i) with
    | some t => some (t.setAdd i { call with pc := .waiting })
    | none => some (s.setAdd i { call with pc := .returned (.error (.resourceStopped cfg.name)) })
  | .waiting =>
    match call.reply with
    | .pending => none
    | .sent result => some (s.setAdd i { call with pc := .returned result })
    | .closed => some (s.setAdd i { call with pc := .returned (.error (.resourceStopped cfg.name)) })

/-- The next step of a `start` call; `configured` is read when the command is sent. -/
def stepStart (cfg : Config) (s : State) (i : ℕ) (configured : Option ℕ) : Option State :=
  match s.starts i with
  | .idle | .returned _ => none
  | .called =>
    match s.state with
    | .created =>
      some { s with state := .started, starts := Function.update s.starts i .claimed }
    | .stopped => some { s with starts := Function.update s.starts i
                                  (.returned (.error (.resourceStopped cfg.name))) }
    | .started => some { s with starts := Function.update s.starts i
                                  (.returned (.error (.resourceAlreadyStarted cfg.name))) }
  | .claimed => some { launch s with starts := Function.update s.starts i .launched }
  | .launched =>
    match send s (.start (executors cfg configured)) with
    | some t => some { t with starts := Function.update s.starts i (.returned (.ok ())) }
    | none => some { s with starts := Function.update s.starts i
                              (.returned (.error (.resourceStopped cfg.name))) }

/-- The next step of a `stop` call. Its context only decides whether a warning is logged. -/
def stepStop (s : State) (i : ℕ) : Option State :=
  match s.stops i with
  | .idle | .returned | .dropped => none
  | .called => some { launch s with stops := Function.update s.stops i .launched }
  | .launched =>
    some { s with
      state := .stopped
      stops := Function.update s.stops i (if s.state = .stopped then .waiting else .sending) }
  | .sending =>
    some { (send s .stop).getD s with stops := Function.update s.stops i .waiting }
  | .waiting =>
    if s.drained then some { s with stops := Function.update s.stops i .returned } else none

/-! ## The actor -/

/-- The `recv` branch; `none` is a channel without senders. The outer `none` is a panic. -/
def handle (cfg : Config) (s : State) : Option Command → Option State
  | some (.add context priority task) =>
    if s.run.stopped then some (s.reply task (.error (.resourceStopped cfg.name)))
    else if s.cancelled context then some (s.reply task (.error .contextCancelled))
    else do
      let id := s.run.nextId
      let queue ← s.run.queue.push id priority ⟨task, id⟩
      let run := { s.run with
        nextId := id + 1
        cancellations := s.run.cancellations ++ [⟨id, context, false⟩]
        queue := queue }
      some (State.reply { s with run := run } task (.ok ()))
  | some (.start count) =>
    if s.run.stopped then some s
    else some { s with run := { s.run with started := true, target := count } }
  | some (.resize count) =>
    if s.run.stopped then some s else some { s with run := { s.run with target := count } }
  | some .stop => some { s with run := { s.run with stopped := true, started := true } }
  | none =>
    some { s with run := { s.run with receiving := false, stopped := true, started := true } }
  | some (.ready id) =>
    if s.run.busy = 0 then none
    else some { s with run := { s.run with busy := s.run.busy - 1, idle := s.run.idle ++ [id] } }

/-- One round of the loop that retires idle workers. -/
def retireOne (s : State) : Option State :=
  match s.run.idle with
  | [] => none
  | w :: idle =>
    some { s with run := { s.run with executors := s.run.executors.erase w, idle := idle } }

def retireIdle (s : State) : Option State :=
  whileLoop (fun s => s.run.target < s.run.executors.card && !s.run.idle.isEmpty) retireOne
    s.run.idle.length s

/-- One round of the loop that spawns workers. -/
def spawnOne (s : State) : Option State :=
  let id := s.run.nextWorker
  let run := { s.run with
    nextWorker := id + 1
    executors := insert id s.run.executors
    idle := s.run.idle ++ [id]
    workers := insert id s.run.workers }
  some (State.setWorker { s with run := run } id ⟨.receiving, []⟩)

def spawnWorkers (s : State) : Option State :=
  whileLoop (fun s => s.run.executors.card < s.run.target) spawnOne
    (s.run.target - s.run.executors.card) s

/-- `entry.cancellation.abort()`. -/
def abort (handle : ℕ) (l : List Cancellation) : List Cancellation :=
  l.map fun c => if c.id = handle then { c with aborted := true } else c

/-- The context of a queued task is cancelled. -/
def State.isCancelled (s : State) (task : ℕ) : Bool := s.cancelled (s.adds task).context

/-- One round of the loop that hands tasks to workers. -/
def dispatchOne (s : State) : Option State := do
  let ((_, entry), queue) ← (← s.run.queue.pop)
  match s.run.idle with
  | [] => none
  | w :: idle =>
    let x := s.workers w
    if w ∈ s.run.executors ∧ x.pc ≠ .exited then
      let run := { s.run with
        queue := queue
        cancellations := abort entry.cancellation s.run.cancellations
        idle := idle
        busy := s.run.busy + 1 }
      let record : Dispatch := ⟨entry.task, w, s.isCancelled entry.task,
        s.run.queue.any fun e => s.isCancelled e.task⟩
      some (State.setWorker { s with run := run, dispatched := s.dispatched ++ [record] } w
        { x with inbox := x.inbox ++ [entry.task] })
    else none

def dispatch (s : State) : Option State :=
  whileLoop (fun s => !s.run.idle.isEmpty && !s.run.queue.isEmpty) dispatchOne s.run.idle.length s

/-- Dropping the receiver drops the commands in the channel, and with them their reply senders. -/
def closeChannel (s : State) : State :=
  { s with
    channel := []
    adds := fun i =>
      if i ∈ s.channel.filterMap Command.task then { s.adds i with reply := .closed }
      else s.adds i }

/-- The loops over the executors that follow the `select!`. -/
def refill (s : State) : Option State :=
  if s.run.started && !s.run.retiring then do dispatch (← spawnWorkers (← retireIdle s))
  else some s

/-- All accepted work is done, so the executors are let go. -/
def beginRetiring (s : State) : State :=
  if s.run.stopped && s.run.queue.isEmpty && s.run.busy = 0 && !s.run.retiring then
    { s with run := { s.run with retiring := true, executors := ∅, idle := [] } }
  else s

/-- Leave `run`, or go on to the next `select!`. -/
def endLoop (s : State) : State :=
  if s.run.retiring ∧ s.run.workers = ∅ then { closeChannel s with actor := .returned }
  else { s with actor := .select .cancellations false }

/-- What the loop does after its `select!`. -/
def settle (s : State) : Option State := (refill s).map fun t => endLoop (beginRetiring t)

/-- A failed `unwrap`, index or subtraction ends the actor. -/
def orPanic (s : State) (r : Option State) : State := r.getD { s with actor := .panicked }

/-- The member of the `FuturesUnordered` is ready. -/
def ready (s : State) (c : Cancellation) : Bool := c.aborted || s.cancelled c.context

/-- Poll the cancellation branch. When some member is ready, `k` is the position of the one that is
yielded. -/
def pollCancellations (s : State) (k : Option ℕ) (disabled : Bool) : Option State :=
  if disabled || s.run.cancellations.isEmpty then
    if k = none then some { s with actor := .select .commands disabled } else none
  else
    match k with
    | none =>
      if s.run.cancellations.any (ready s) then none
      else some { s with actor := .select .commands false }
    | some k => do
      let c ← s.run.cancellations[k]?
      let s' := { s with run := { s.run with cancellations := s.run.cancellations.eraseIdx k } }
      if c.aborted then some { s' with actor := .select .commands true }
      else if s.cancelled c.context then
        some (orPanic s (do
          let (_, queue) ← s'.run.queue.promote c.id
          settle { s' with run := { s'.run with queue := queue } }))
      else none

/-! ## Workers -/

/-- The next step of a worker; its sender is dropped with its entry in `executors`. -/
def stepWorker (s : State) (w : ℕ) : Option State :=
  let x := s.workers w
  match x.pc with
  | .unborn | .exited => none
  | .receiving =>
    match x.inbox with
    | task :: inbox => some (s.setWorker w ⟨.running task, inbox⟩)
    | [] => if w ∈ s.run.executors then none else some (s.setWorker w { x with pc := .exited })
  | .running task =>
    some (State.setWorker { s with finished := s.finished ++ [(task, w)] } w
      { x with pc := .reporting })
  | .reporting =>
    match send s (.ready w) with
    | some t => some (t.setWorker w { x with pc := .receiving })
    | none => some (s.setWorker w { x with pc := .exited })

/-! ## The system -/

inductive Action
  | cancel (context : ℕ)
  | addTask (i context : ℕ) (priority : Int32)
  | stepAdd (i : ℕ)
  | dropAdd (i : ℕ)
  | start (i : ℕ)
  | stepStart (i : ℕ) (configured : Option ℕ)
  | reloadConfig (configured : Option ℕ)
  | stop (i : ℕ)
  | stepStop (i : ℕ)
  | dropStop (i : ℕ)
  /-- The spawned task takes the receiver and enters `run`. -/
  | enterRun (configured : Option ℕ)
  | pollCancellations (k : Option ℕ)
  | recv
  /-- `recv` is pending: the channel is empty, or the task's budget is used up. -/
  | recvPending
  | join (w : ℕ)
  | joinPending
  | publishDrained
  | stepWorker (w : ℕ)

def step (cfg : Config) (s : State) : Action → Option State
  | .cancel c => some { s with cancelled := Function.update s.cancelled c true }
  | .addTask i context priority =>
    if (s.adds i).pc = .idle then some (s.setAdd i ⟨.called, context, priority, .pending⟩) else none
  | .stepAdd i => QueuedPool.stepAdd cfg s i
  | .dropAdd i =>
    if (s.adds i).pc = .waiting then some (s.setAdd i { s.adds i with pc := .dropped }) else none
  | .start i =>
    if s.starts i = .idle then some { s with starts := Function.update s.starts i .called }
    else none
  | .stepStart i configured => QueuedPool.stepStart cfg s i configured
  | .reloadConfig configured => some ((send s (.resize (executors cfg configured))).getD s)
  | .stop i =>
    if s.stops i = .idle then some { s with stops := Function.update s.stops i .called } else none
  | .stepStop i => QueuedPool.stepStop s i
  | .dropStop i =>
    if s.stops i = .waiting then some { s with stops := Function.update s.stops i .dropped }
    else none
  | .enterRun configured =>
    if s.actor = .spawned then
      some { s with run := .new cfg (executors cfg configured)
                    actor := .select .cancellations false }
    else none
  | .pollCancellations k =>
    match s.actor with
    | .select .cancellations disabled => QueuedPool.pollCancellations s k disabled
    | _ => none
  | .recv =>
    match s.actor, s.channel with
    | .select .commands _, c :: channel =>
      if s.run.receiving then
        let s' := { s with channel := channel }
        some (orPanic s' ((handle cfg s' (some c)).bind settle))
      else none
    | _, _ => none
  | .recvPending =>
    match s.actor with
    | .select .commands disabled => some { s with actor := .select .workers disabled }
    | _ => none
  | .join w =>
    match s.actor with
    | .select .workers _ =>
      if w ∈ s.run.workers ∧ (s.workers w).pc = .exited then
        let s' := { s with run := { s.run with workers := s.run.workers.erase w } }
        some (orPanic s' (settle s'))
      else none
    | _ => none
  | .joinPending =>
    match s.actor with
    | .select .workers disabled => some { s with actor := .select .cancellations disabled }
    | _ => none
  | .publishDrained =>
    if s.actor = .returned then some { s with drained := true, actor := .drained } else none
  | .stepWorker w => QueuedPool.stepWorker s w

def system (cfg : Config) : System State Action where
  init := .init cfg
  step := step cfg

end QueuedPool

end ServiceLib
