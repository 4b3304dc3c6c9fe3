import ServiceLib.Kafka.CheckpointFailure

/-!
# The consume loop of a Kafka endpoint

Follows the loop of `RdkafkaKafkaEndpoint::start` in `src/datasource/kafka/rdkafka.rs`. The loop
receives the messages of all assigned partitions and passes each on to the lane of its partition, a
task with a bounded channel that calls the handler for one message after the other. Rebalance
callbacks run beside it, on the assignments of `ServiceLib.Kafka.Checkpoint`.

`consume_loop_explained`: the loop ends only because it was stopped, because its context was
cancelled, or with an error that was given to `on_error`, as long as it does not send into a lane
that has ended. This is exact. A lane ends when its partition is revoked or its handler panics, and
nothing keeps the loop from sending into it then: the send fails, and the loop ends for every
partition without a word (`revocation_ends_loop`).

Each access to the assignments is one action, and so is each poll of a lane.
-/

namespace ServiceLib

namespace ConsumeLoop

open Kafka

/-! ## Data -/

/-- What the loop reads of a message. -/
structure Message where
  topic : String
  partition : ℤ
  offset : ℤ
  deriving DecidableEq

/-- Topic, partition and generation. -/
abbrev LaneKey := String × ℤ × ℕ

inductive LanePc
  | receiving
  | handling (message : Message)
  /-- The task is over, and its receiver dropped. -/
  | ended

structure Lane where
  pc : LanePc
  context : ℕ
  queue : List Message

/-- Why the loop has ended. -/
inductive Exit
  | stopped
  | cancelled
  /-- The assignments have failed, and this is what `take_error` has returned. -/
  | failed (error : Option HandlerError)
  /-- The checkpoint is lost. If the loop was being stopped, the error is not reported. -/
  | checkpointLost (error : HandlerError) (stopping : Bool)
  /-- A send has failed. Was the loop being stopped at that time? -/
  | laneClosed (stopping : Bool)

inductive Loop
  | selecting
  /-- The `failed` token was seen: about to take the error. -/
  | taking
  /-- `on_error` runs; afterwards the loop ends, or goes on. -/
  | reporting (error : HandlerError) (exit : Option Exit)
  | received (message : Message)
  /-- `lanes.retain` runs. -/
  | retaining (message : Message) (kept todo : List (LaneKey × ℕ)) (revision : ℕ)
  /-- About to look the partition up. -/
  | looking (message : Message)
  | checking (message : Message) (generation context : ℕ)
  | sending (message : Message) (lane : ℕ)
  | exited (exit : Exit)

/-- The endpoint while its loop runs. The context of the loop is the owner of the assignments. -/
structure State where
  assignments : Kafka.State
  stop : Bool
  loop : Loop
  lanes : List (LaneKey × ℕ)
  tasks : ℕ → Option Lane
  nextLane : ℕ
  assignmentRevision : ℕ
  /-- The errors that were given to `on_error`. -/
  reported : List HandlerError

def State.init : State where
  assignments := .init
  stop := false
  loop := .selecting
  lanes := []
  tasks := fun _ => none
  nextLane := 0
  assignmentRevision := 0
  reported := []

namespace State

/-- `context.cancel()`. -/
def cancelContext (s : State) : State :=
  { s with assignments := { s.assignments with ownerCancelled := true } }

def contextCancelled (s : State) : Bool := s.assignments.ownerCancelled

/-- `Assignments::current`. -/
def current (s : State) (partition : ℤ) (generation : ℕ) : Bool :=
  match s.assignments.partitions.lookup partition with
  | some (g, context) => g == generation && !s.assignments.isCancelled context
  | none => false

def setTask (s : State) (l : ℕ) (x : Lane) : State :=
  { s with tasks := Function.update s.tasks l (some x) }

/-- `lanes.entry(lane_key).or_insert_with(..)`, and then the send. -/
def enterLane (s : State) (message : Message) (generation context : ℕ) : State :=
  let key : LaneKey := (message.topic, message.partition, generation)
  match s.lanes.lookup key with
  | some l => { s with loop := .sending message l }
  | none =>
    let l := s.nextLane
    State.setTask { s with
      nextLane := l + 1
      lanes := s.lanes ++ [(key, l)]
      loop := .sending message l } l ⟨.receiving, context, []⟩

end State

/-! ## The system -/

inductive Action
  /-- A step of a rebalance callback, or of whoever cancels a context. -/
  | assignments (a : Kafka.Action)
  | stop
  /-- `select!` of the loop. -/
  | seeStop
  | seeCancelled
  | seeFailed
  | takeError
  | recv (message : Message)
  /-- `recv` fails; `offsets` says that the error code is about the offset. -/
  | recvError (error : HandlerError) (offsets : Bool)
  /-- `on_error` returns. -/
  | reported
  /-- Load the revision; `order` is the order in which `retain` goes over the lanes. -/
  | loadRevision (order : List (LaneKey × ℕ))
  | retain
  | get
  | checkContext
  /-- `select!` of the send. -/
  | send
  | sendStopped
  | sendCancelled
  /-- The select of a lane. -/
  | laneCancelled (l : ℕ)
  | laneReceive (l : ℕ)
  | laneClosed (l : ℕ)
  /-- The handler of a lane returns, or panics. -/
  | laneHandled (l : ℕ)
  | lanePanicked (l : ℕ)

/-- What happens to a send: it waits while the channel is full. -/
def send (s : State) (message : Message) (l : ℕ) : Option State := do
  let x ← s.tasks l
  match x.pc with
  | .ended => some { s with loop := .exited (.laneClosed (s.stop || s.contextCancelled)) }
  | _ =>
    if x.queue.length < 256 then
      some (State.setTask { s with loop := .selecting } l { x with queue := x.queue ++ [message] })
    else none

/-- One step of the loop, of a lane or of what runs beside them. -/
def step (cfg : Config) (s : State) : Action → Option State
  | .assignments .takeError => none
  | .assignments a => (Kafka.step cfg s.assignments a).map fun x => { s with assignments := x }
  | .stop => some { s with stop := true }
  | .seeStop =>
    match s.loop with
    | .selecting => if s.stop then some { s with loop := .exited .stopped } else none
    | _ => none
  | .seeCancelled =>
    match s.loop with
    | .selecting => if s.contextCancelled then some { s with loop := .exited .cancelled } else none
    | _ => none
  | .seeFailed =>
    match s.loop with
    | .selecting => if s.assignments.failed then some { s with loop := .taking } else none
    | _ => none
  | .takeError =>
    match s.loop with
    | .taking =>
      match s.assignments.error with
      | some e =>
        (Kafka.step cfg s.assignments .takeError).map fun x =>
          { s with assignments := x, loop := .reporting e (some (.failed (some e))) }
      | none => some (State.cancelContext { s with loop := .exited (.failed none) })
    | _ => none
  | .recv message =>
    match s.loop with
    | .selecting => some { s with loop := .received message }
    | _ => none
  | .recvError error offsets =>
    match s.loop with
    | .selecting =>
      let checkpointLost := cfg.restoring && offsets
      if s.contextCancelled || s.stop then
        if checkpointLost then
          some (State.cancelContext { s with loop := .exited (.checkpointLost error true) })
        else some s
      else
        let exit := if checkpointLost then some (Exit.checkpointLost error false) else none
        some { s with loop := .reporting error exit }
    | _ => none
  | .reported =>
    match s.loop with
    | .reporting error exit =>
      let s := { s with reported := s.reported ++ [error] }
      match exit with
      | some exit => some (State.cancelContext { s with loop := .exited exit })
      | none => some { s with loop := .selecting }
    | _ => none
  | .loadRevision order =>
    match s.loop with
    | .received message =>
      let revision := s.assignments.revision
      if revision ≠ s.assignmentRevision then
        if order.Perm s.lanes then
          some { s with loop := .retaining message [] order revision }
        else none
      else some { s with loop := .looking message }
    | _ => none
  | .retain =>
    match s.loop with
    | .retaining message kept [] revision =>
      some { s with lanes := kept, assignmentRevision := revision, loop := .looking message }
    | .retaining message kept (((topic, partition, generation), l) :: todo) revision =>
      let kept := if s.current partition generation then
        kept ++ [((topic, partition, generation), l)] else kept
      some { s with loop := .retaining message kept todo revision }
    | _ => none
  | .get =>
    match s.loop with
    | .looking message =>
      match s.assignments.partitions.lookup message.partition with
      | some (generation, context) => some { s with loop := .checking message generation context }
      | none => some { s with loop := .selecting }
    | _ => none
  | .checkContext =>
    match s.loop with
    | .checking message generation context =>
      if s.assignments.isCancelled context then some { s with loop := .selecting }
      else some (s.enterLane message generation context)
    | _ => none
  | .send =>
    match s.loop with
    | .sending message l => ConsumeLoop.send s message l
    | _ => none
  | .sendStopped =>
    match s.loop with
    | .sending _ _ => if s.stop then some { s with loop := .exited .stopped } else none
    | _ => none
  | .sendCancelled =>
    match s.loop with
    | .sending _ _ =>
      if s.contextCancelled then some { s with loop := .exited .cancelled } else none
    | _ => none
  | .laneCancelled l => do
    let x ← s.tasks l
    match x.pc with
    | .receiving =>
      if s.assignments.isCancelled x.context then some (s.setTask l { x with pc := .ended })
      else none
    | _ => none
  | .laneReceive l => do
    let x ← s.tasks l
    match x.pc, x.queue with
    | .receiving, message :: queue =>
      some (s.setTask l { x with pc := .handling message, queue := queue })
    | _, _ => none
  | .laneClosed l => do
    let x ← s.tasks l
    match x.pc, x.queue, s.loop with
    | .receiving, [], .exited _ => some (s.setTask l { x with pc := .ended })
    | .receiving, [], _ =>
      if l ∈ s.lanes.map Prod.snd then none else some (s.setTask l { x with pc := .ended })
    | _, _, _ => none
  | .laneHandled l => do
    let x ← s.tasks l
    match x.pc with
    | .handling _ => some (s.setTask l { x with pc := .receiving })
    | _ => none
  | .lanePanicked l => do
    let x ← s.tasks l
    match x.pc with
    | .handling _ => some (s.setTask l { x with pc := .ended })
    | _ => none

def system (cfg : Config) : System State Action := ⟨.init, step cfg⟩

/-! ## Why the loop ends -/

/-- The loop was stopped, its context was cancelled, or an error was reported. -/
def Explained (s : State) : Exit → Prop
  | .stopped => s.stop = true
  | .cancelled => s.contextCancelled = true
  | .failed error => ∃ e, error = some e ∧ e ∈ s.reported
  | .checkpointLost error stopping => stopping = true ∨ error ∈ s.reported
  | .laneClosed stopping => stopping = true

/-- The loop goes on, or its end is explained. -/
def NotSilent (s : State) : Prop := ∀ x, s.loop = .exited x → Explained s x

/-- A step that does not send into a lane that has ended, unless the loop is being stopped. -/
def LaneOpen (s : State) : Action → Prop
  | .send => ∀ message l x, s.loop = .sending message l → s.tasks l = some x → x.pc = .ended →
      (s.stop || s.contextCancelled) = true
  | _ => True

/-! ## The error of failed assignments -/

/-- Assignments that have failed have recorded an error. -/
def Recorded (s : Kafka.State) : Prop :=
  s.failed = true ∨ s.callback = .cancelling → s.recorded ≠ []

/-- What a step of the assignments keeps. -/
structure Kept (s t : Kafka.State) : Prop where
  taken : t.taken = s.taken
  failed : s.failed = true → t.failed = true
  owner : s.ownerCancelled = true → t.ownerCancelled = true
  recorded : Recorded t

theorem Recorded.congr {s t : Kafka.State} (h : Recorded s) (hr : t.recorded = s.recorded)
    (hf : t.failed = s.failed) (hc : t.callback ≠ .cancelling) : Recorded t := by
  rintro (ht | ht)
  · rw [hr]
    exact h (.inl (hf ▸ ht))
  · exact absurd ht hc

theorem revokeLocked_owner (s : Kafka.State) (answers : Answers) (list : List Kafka.Item) :
    (s.revokeLocked answers list).ownerCancelled = s.ownerCancelled := by
  have hb := (removePartitions_beside s (State.listed list)).ownerCancelled
  unfold Kafka.State.revokeLocked
  cases answers.cooperative <;> cases answers.native <;> first | rfl | exact hb

theorem kept_step {cfg : Config} {s t : Kafka.State} {a : Kafka.Action} (h : Recorded s)
    (ha : a ≠ .takeError) (hs : Kafka.step cfg s a = some t) : Kept s t := by
  unfold Kafka.step at hs
  cases a with
  | assign answers list =>
    cases hcb : s.callback <;> simp only [hcb, reduceCtorEq] at hs
    split at hs <;> cases hs <;> exact ⟨rfl, id, id, h.congr rfl rfl nofun⟩
  | assignLocked =>
    cases hcb : s.callback <;> simp only [hcb, reduceCtorEq] at hs
    rename_i answers list
    have hl := assignLocked_locked s answers list
    split_ifs at hs with hc <;> cases hs
    · exact ⟨rfl, id, id, h.congr rfl rfl nofun⟩
    · refine ⟨hl.taken, fun hf => hl.failed.trans hf, fun ho => absurd ho hc,
        h.congr hl.recorded hl.failed ?_⟩
      cases hn : answers.native with
      | error e => rw [hl.fails e hn]; exact nofun
      | ok u => rw [hl.ends hn]; exact nofun
  | revoke answers list =>
    cases hcb : s.callback <;> simp only [hcb, reduceCtorEq] at hs
    have hl := revokeLocked_locked { s with callback := .idle, rebalances := s.rebalances + 1 }
      answers list
    cases hs
    refine ⟨hl.taken, fun hf => hl.failed.trans hf, fun ho => ?_,
      h.congr hl.recorded hl.failed ?_⟩
    · rw [revokeLocked_owner]
      exact ho
    · cases hn : answers.native with
      | error e => rw [hl.fails e hn]; exact nofun
      | ok u => rw [hl.ends hn]; exact nofun
  | other event =>
    cases hcb : s.callback <;> simp only [hcb, reduceCtorEq] at hs
    cases hs
    exact ⟨rfl, id, id, h.congr rfl rfl nofun⟩
  | fail =>
    cases hcb : s.callback <;> simp only [hcb, reduceCtorEq] at hs
    cases hs
    exact ⟨rfl, id, id, fun _ => List.append_ne_nil_of_right_ne_nil _ nofun⟩
  | failToken =>
    cases hcb : s.callback <;> simp only [hcb, reduceCtorEq] at hs
    cases hs
    exact ⟨rfl, fun _ => rfl, id, fun _ => h (.inr hcb)⟩
  | unassign =>
    cases hcb : s.callback <;> simp only [hcb, reduceCtorEq] at hs
    cases hs
    exact ⟨rfl, id, id, h.congr rfl rfl nofun⟩
  | takeError => exact absurd rfl ha
  | cancelOwner =>
    cases hs
    exact ⟨rfl, id, fun _ => rfl, h⟩
  | cancelContext context =>
    simp only at hs
    split_ifs at hs
    cases hs
    exact ⟨rfl, id, id, h⟩

/-! ## The invariant -/

/-- What is known where the loop is: an error that is being reported is the one the loop will end
with, and the error of failed assignments is taken by nobody else. -/
def LoopOk (s : State) : Prop :=
  match s.loop with
  | .taking => s.assignments.failed = true ∧ s.assignments.taken = []
  | .reporting error (some x) => x = .failed (some error) ∨ x = .checkpointLost error false
  | .exited x => Explained s x
  | _ => s.assignments.taken = []

structure Ok (s : State) : Prop where
  errors : ErrorOk s.assignments
  recorded : Recorded s.assignments
  loop : LoopOk s

theorem ok_init : Ok .init where
  errors := ⟨fun _ => rfl, fun h => (h rfl).elim, fun h => (h rfl).elim⟩
  recorded := by
    rintro (h | h) <;> cases h
  loop := rfl

variable {cfg : Config} {s t : State} {a : Action}

theorem Explained.mono {x : Exit} (h : Explained s x) (hstop : s.stop = true → t.stop = true)
    (hctx : s.contextCancelled = true → t.contextCancelled = true)
    (hrep : s.reported ⊆ t.reported) : Explained t x := by
  cases x with
  | stopped => exact hstop h
  | cancelled => exact hctx h
  | failed error =>
    obtain ⟨e, he, hm⟩ := h
    exact ⟨e, he, hrep hm⟩
  | checkpointLost error stopping => exact h.imp_right fun hm => hrep hm
  | laneClosed stopping => exact h

/-- The loop stays where it is while others take a step. -/
theorem LoopOk.beside (h : LoopOk s) (hloop : t.loop = s.loop)
    (htaken : t.assignments.taken = s.assignments.taken)
    (hfailed : s.assignments.failed = true → t.assignments.failed = true)
    (hstop : s.stop = true → t.stop = true)
    (hctx : s.contextCancelled = true → t.contextCancelled = true)
    (hrep : t.reported = s.reported) : LoopOk t := by
  unfold LoopOk at h ⊢
  rw [hloop, htaken]
  split at h
  · exact ⟨hfailed h.1, h.2⟩
  · exact h
  · exact h.mono hstop hctx (hrep ▸ List.Subset.refl _)
  · exact h

/-- The loop moves on; nothing else changes. -/
theorem Ok.move (h : Ok s) {loop : Loop} (hl : LoopOk { s with loop := loop }) :
    Ok { s with loop := loop } :=
  ⟨h.errors, h.recorded, hl⟩

/-- A lane moves on. -/
theorem Ok.setTask (h : Ok s) (l : ℕ) (x : Lane) : Ok (s.setTask l x) :=
  ⟨h.errors, h.recorded, h.loop.beside rfl rfl id id id rfl⟩

theorem Ok.enterLane (h : Ok s) {message : Message} {generation context : ℕ}
    (ht : s.assignments.taken = []) : Ok (s.enterLane message generation context) := by
  unfold State.enterLane
  dsimp only
  split
  · exact h.move ht
  · exact ⟨h.errors, h.recorded, ht⟩

/-- **A send is explained** if its lane is open. -/
theorem Ok.send (h : Ok s) {message : Message} {l : ℕ} (hloop : s.loop = .sending message l)
    (hok : LaneOpen s .send) (hs : ConsumeLoop.send s message l = some t) : Ok t := by
  have ht : s.assignments.taken = [] := by
    have hl := h.loop
    rwa [LoopOk, hloop] at hl
  simp only [ConsumeLoop.send, Option.bind_eq_bind, Option.bind_eq_some_iff] at hs
  obtain ⟨x, hx, hs⟩ := hs
  cases hpc : x.pc with
  | ended =>
    simp only [hpc, Option.some.injEq] at hs
    rw [← hs]
    exact h.move (hok message l x hloop hx hpc)
  | receiving | handling =>
    simp only [hpc] at hs
    split_ifs at hs
    rw [Option.some.injEq] at hs
    exact hs ▸ ⟨h.errors, h.recorded, ht⟩

theorem Ok.assignments (h : Ok s) {b : Kafka.Action} {x : Kafka.State}
    (hx : Kafka.step cfg s.assignments b = some x) (hb : b ≠ .takeError) :
    Ok { s with assignments := x } := by
  have hk := kept_step h.recorded hb hx
  exact ⟨h.errors.step hx, hk.recorded, h.loop.beside rfl hk.taken hk.failed id hk.owner rfl⟩

/-- Assignments that have failed have an error to take. -/
theorem Ok.error_isSome (h : Ok s) (hloop : s.loop = .taking) : s.assignments.error ≠ none := by
  have hl := h.loop
  rw [LoopOk, hloop] at hl
  rw [h.errors.kept hl.2]
  intro hnone
  exact h.recorded (.inl hl.1) (List.head?_eq_none_iff.1 hnone)

theorem Ok.takeError (h : Ok s) (hs : step cfg s .takeError = some t) : Ok t := by
  simp only [step] at hs
  cases hloop : s.loop <;> simp only [hloop, reduceCtorEq] at hs
  cases he : s.assignments.error with
  | none => exact absurd he (h.error_isSome hloop)
  | some e =>
    simp only [he, Option.map_eq_some_iff] at hs
    obtain ⟨x, hx, rfl⟩ := hs
    refine ⟨h.errors.step hx, ?_, .inl rfl⟩
    have hrec := h.recorded
    simp only [Kafka.step] at hx
    split at hx <;> cases hx
    exact hrec

theorem Ok.reported (h : Ok s) (hs : step cfg s .reported = some t) : Ok t := by
  simp only [step] at hs
  cases hloop : s.loop <;> simp only [hloop, reduceCtorEq] at hs
  rename_i error exit
  have hl := h.loop
  rw [LoopOk, hloop] at hl
  have hm : error ∈ s.reported ++ [error] := List.mem_append_right _ (List.mem_singleton_self _)
  cases exit with
  | none =>
    rw [Option.some.injEq] at hs
    exact hs ▸ ⟨h.errors, h.recorded, hl⟩
  | some x =>
    rw [Option.some.injEq] at hs
    refine hs ▸ ⟨⟨h.errors.kept, h.errors.first, h.errors.recorded⟩, h.recorded, ?_⟩
    rcases hl with rfl | rfl
    · exact ⟨error, rfl, hm⟩
    · exact .inr hm

theorem Ok.recvError (h : Ok s) {error : HandlerError} {offsets : Bool}
    (hs : step cfg s (.recvError error offsets) = some t) : Ok t := by
  simp only [step] at hs
  cases hloop : s.loop <;> simp only [hloop, reduceCtorEq] at hs
  have hl := h.loop
  rw [LoopOk, hloop] at hl
  split_ifs at hs <;> rw [Option.some.injEq] at hs
  · exact hs ▸ ⟨⟨h.errors.kept, h.errors.first, h.errors.recorded⟩, h.recorded, .inl rfl⟩
  · exact hs ▸ h
  · exact hs ▸ h.move (.inr rfl)
  · exact hs ▸ h.move hl

theorem Ok.step (h : Ok s) (hok : LaneOpen s a) (hs : step cfg s a = some t) : Ok t := by
  have hl := h.loop
  unfold LoopOk at hl
  cases a with
  | assignments b =>
    cases b with
    | takeError => cases hs
    | assign | assignLocked | revoke | other | fail | failToken | unassign | cancelOwner
    | cancelContext =>
      simp only [ConsumeLoop.step, Option.map_eq_some_iff] at hs
      obtain ⟨x, hx, rfl⟩ := hs
      exact h.assignments hx nofun
  | stop =>
    simp only [ConsumeLoop.step, Option.some.injEq] at hs
    exact hs ▸ ⟨h.errors, h.recorded, h.loop.beside rfl rfl id (fun _ => rfl) id rfl⟩
  | seeStop | seeCancelled =>
    simp only [ConsumeLoop.step] at hs
    cases hloop : s.loop <;> simp only [hloop, reduceCtorEq] at hs
    split_ifs at hs with hc
    rw [Option.some.injEq] at hs
    exact hs ▸ h.move hc
  | seeFailed =>
    simp only [ConsumeLoop.step] at hs
    cases hloop : s.loop <;> simp only [hloop, reduceCtorEq] at hs
    split_ifs at hs with hf
    rw [Option.some.injEq] at hs
    rw [hloop] at hl
    exact hs ▸ h.move ⟨hf, hl⟩
  | takeError => exact h.takeError hs
  | recv message =>
    simp only [ConsumeLoop.step] at hs
    cases hloop : s.loop <;> simp only [hloop, reduceCtorEq, Option.some.injEq] at hs
    rw [hloop] at hl
    exact hs ▸ h.move hl
  | recvError error offsets => exact h.recvError hs
  | reported => exact h.reported hs
  | loadRevision order =>
    simp only [ConsumeLoop.step] at hs
    cases hloop : s.loop <;> simp only [hloop, reduceCtorEq] at hs
    rw [hloop] at hl
    split_ifs at hs <;> rw [Option.some.injEq] at hs <;> exact hs ▸ h.move hl
  | retain =>
    simp only [ConsumeLoop.step] at hs
    split at hs
    · rename_i hloop
      rw [hloop] at hl
      rw [Option.some.injEq] at hs
      exact hs ▸ ⟨h.errors, h.recorded, hl⟩
    · rename_i hloop
      rw [hloop] at hl
      rw [Option.some.injEq] at hs
      exact hs ▸ h.move hl
    · cases hs
  | get =>
    simp only [ConsumeLoop.step] at hs
    cases hloop : s.loop <;> simp only [hloop, reduceCtorEq] at hs
    rw [hloop] at hl
    split at hs <;> rw [Option.some.injEq] at hs <;> exact hs ▸ h.move hl
  | checkContext =>
    simp only [ConsumeLoop.step] at hs
    cases hloop : s.loop <;> simp only [hloop, reduceCtorEq] at hs
    rw [hloop] at hl
    split_ifs at hs <;> rw [Option.some.injEq] at hs
    · exact hs ▸ h.move hl
    · exact hs ▸ h.enterLane hl
  | send =>
    simp only [ConsumeLoop.step] at hs
    cases hloop : s.loop <;> simp only [hloop, reduceCtorEq] at hs
    exact h.send hloop hok hs
  | sendStopped | sendCancelled =>
    simp only [ConsumeLoop.step] at hs
    cases hloop : s.loop <;> simp only [hloop, reduceCtorEq] at hs
    split_ifs at hs with hc
    rw [Option.some.injEq] at hs
    exact hs ▸ h.move hc
  | laneCancelled l =>
    simp only [ConsumeLoop.step, Option.bind_eq_bind, Option.bind_eq_some_iff] at hs
    obtain ⟨x, hx, hs⟩ := hs
    cases hpc : x.pc <;> simp only [hpc, reduceCtorEq] at hs
    split_ifs at hs
    rw [Option.some.injEq] at hs
    exact hs ▸ h.setTask l _
  | laneReceive l =>
    simp only [ConsumeLoop.step, Option.bind_eq_bind, Option.bind_eq_some_iff] at hs
    obtain ⟨x, hx, hs⟩ := hs
    split at hs
    · rw [Option.some.injEq] at hs
      exact hs ▸ h.setTask l _
    · cases hs
  | laneClosed l =>
    simp only [ConsumeLoop.step, Option.bind_eq_bind, Option.bind_eq_some_iff] at hs
    obtain ⟨x, hx, hs⟩ := hs
    split at hs
    · rw [Option.some.injEq] at hs
      exact hs ▸ h.setTask l _
    · split_ifs at hs
      rw [Option.some.injEq] at hs
      exact hs ▸ h.setTask l _
    · cases hs
  | laneHandled l | lanePanicked l =>
    simp only [ConsumeLoop.step, Option.bind_eq_bind, Option.bind_eq_some_iff] at hs
    obtain ⟨x, hx, hs⟩ := hs
    cases hpc : x.pc <;> simp only [hpc, reduceCtorEq, Option.some.injEq] at hs
    exact hs ▸ h.setTask l _

theorem ok_of_reach (h : (system cfg).Reach LaneOpen s) : Ok s :=
  h.invariant (I := Ok) ok_init fun _ _ _ hi hok hs => hi.step hok hs

theorem Ok.notSilent (h : Ok s) : NotSilent s := by
  intro x hx
  have hl := h.loop
  rwa [LoopOk, hx] at hl

/-- A send into a lane that has ended ends the loop. -/
theorem not_notSilent_of_not_laneOpen (hs : step cfg s a = some t) (hnot : ¬ LaneOpen s a) :
    ¬ NotSilent t := by
  cases a with
  | send =>
    simp only [LaneOpen, not_forall, exists_prop] at hnot
    obtain ⟨message, l, x, hloop, hx, hpc, hgoing⟩ := hnot
    simp only [ConsumeLoop.step, hloop, ConsumeLoop.send, hx, hpc, Option.bind_eq_bind,
      Option.bind_some, Option.some.injEq] at hs
    intro hexp
    rw [← hs] at hexp
    exact hgoing (hexp _ rfl)
  | assignments | stop | seeStop | seeCancelled | seeFailed | takeError | recv | recvError
  | reported | loadRevision | retain | get | checkContext | sendStopped | sendCancelled
  | laneCancelled | laneReceive | laneClosed | laneHandled | lanePanicked =>
    exact absurd trivial hnot

/-! ## Main result -/

/-- **The loop does not die silently while its lanes are open.** In every run in which the loop
does not send into a lane that has ended, unless it is being stopped: when the loop has ended, it
was stopped, its context was cancelled, or an error was given to `on_error`. And this is exact: a
further step ends the loop silently if and only if it is such a send. -/
theorem consume_loop_explained (h : (system cfg).Reach LaneOpen s) :
    NotSilent s ∧ ∀ a t, step cfg s a = some t → (NotSilent t ↔ LaneOpen s a) := by
  have hok := ok_of_reach h
  refine ⟨hok.notSilent, fun a t hs => ⟨fun hexp => ?_, fun hopen => (hok.step hopen hs).notSilent⟩⟩
  by_contra hnot
  exact not_notSilent_of_not_laneOpen hs hnot hexp

/-- The lane the loop is sending into has not ended. -/
def laneAlive (s : State) : Action → Bool
  | .send =>
    match s.loop with
    | .sending _ l =>
      match s.tasks l with
      | some ⟨.ended, _, _⟩ => false
      | _ => true
    | _ => true
  | _ => true

theorem laneOpen_of_laneAlive (h : laneAlive s a = true) : LaneOpen s a := by
  cases a with
  | send =>
    intro message l x hloop hx hpc
    obtain ⟨pc, context, queue⟩ := x
    simp only at hpc
    subst hpc
    simp [laneAlive, hloop, hx] at h
  | assignments | stop | seeStop | seeCancelled | seeFailed | takeError | recv | recvError
  | reported | loadRevision | retain | get | checkContext | sendStopped | sendCancelled
  | laneCancelled | laneReceive | laneClosed | laneHandled | lanePanicked => exact trivial

/-- Partitions 0 and 1 are assigned, and a message of partition 0 is passed on to its lane. -/
def passedOn : List Action :=
  [.assignments (.assign calm [⟨"orders", 0, none⟩, ⟨"orders", 1, none⟩]),
    .assignments .assignLocked, .recv ⟨"orders", 0, 10⟩, .loadRevision [], .retain, .get,
    .checkContext, .send]

/-- The handler panics on it; then the revocation of partition 0 fails. -/
def revocationFails : List Action :=
  passedOn ++ [.laneReceive 0, .lanePanicked 0,
    .assignments (.revoke { calm with native := .error "native" } [⟨"orders", 0, none⟩]),
    .assignments .fail, .assignments .failToken, .seeFailed, .takeError, .reported]

theorem revocationFails_runs :
    (((system ⟨"orders", false⟩).restrict fun s a => laneAlive s a = true).run .init
      revocationFails).isSome := by
  decide +kernel

/-- The loop ends with the error it has reported. -/
theorem consume_loop_explained_revocationFails :
    ∃ s, (system ⟨"orders", false⟩).Reach LaneOpen s ∧
      s.loop = .exited (.failed (some "native")) ∧ NotSilent s := by
  have h : (system ⟨"orders", false⟩).Reach LaneOpen
      ((((system ⟨"orders", false⟩).restrict fun s a => laneAlive s a = true).run .init
        revocationFails).get revocationFails_runs) :=
    (System.reachable_get revocationFails_runs).reach.mono fun _ _ => laneOpen_of_laneAlive
  exact ⟨_, h, rfl, (consume_loop_explained h).1⟩

/-- A second message of partition 0 has passed every check when the partition is revoked and its
lane ends. -/
def revokedWhileSending : List Action :=
  passedOn ++ [.laneReceive 0, .laneHandled 0, .recv ⟨"orders", 0, 11⟩, .loadRevision [], .get,
    .checkContext, .assignments (.revoke calm [⟨"orders", 0, none⟩]), .laneCancelled 0, .send]

theorem revokedWhileSending_runs :
    ((system ⟨"orders", false⟩).run .init revokedWhileSending).isSome := by
  decide +kernel

/-- **The revocation of one partition ends the loop**: nobody has stopped it, no error was
reported, and partition 1 is still assigned. -/
theorem revocation_ends_loop :
    ∃ s, (system ⟨"orders", false⟩).Reachable s ∧ s.loop = .exited (.laneClosed false) ∧
      s.stop = false ∧ s.contextCancelled = false ∧ s.reported = [] ∧
      s.assignments.partitions.lookup 1 = some (1, 1) ∧ ¬ NotSilent s := by
  set s := ((system ⟨"orders", false⟩).run .init revokedWhileSending).get revokedWhileSending_runs
  have hloop : s.loop = .exited (.laneClosed false) := rfl
  refine ⟨s, System.reachable_get revokedWhileSending_runs, hloop, rfl, rfl, rfl, rfl, ?_⟩
  intro hexp
  have hstopping : false = true := hexp _ hloop
  cases hstopping

end ConsumeLoop

end ServiceLib
