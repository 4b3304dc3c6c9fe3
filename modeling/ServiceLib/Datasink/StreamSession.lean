import ServiceLib.Store.RotatingMap
import ServiceLib.Transition

/-!
# Streaming sessions of the gRPC sinks

Follows `consume`, `spawn_finalizer` and `spawn_stream_tasks` of the client-streaming and the
bidirectional sink in `src/datasink/grpc/clientstreaming.rs` and `bidistreaming.rs`.

The messages of one stream id go to one session. The first `consume` call puts a cell into `pending`
and initializes it: `begin_request`, then the call to the peer. The others wait for the cell. A task
of the session closes it when the user is done, the context is cancelled or the peer has ended: it
rejects further messages, waits for the handlers that hold the lifetime lock, calls `end_request`
and removes the cell, if it is still the one in `pending`.

**Theorem (`session_protocol`).** In any run, a session calls `end_request` at most once, only after
a `begin_request` that succeeded, and has done so when it is over; no message is consumed from then
on; and at most one session of a stream id is open.

**Theorem (`failed_creation_final`).** A cell whose initialization has failed stays so, and every
call that has the cell sees the failure.

**Theorem (`pending_accounted`).** What is in `pending` has a task, or a call, that will remove it.

The idea: an open session is the one that `pending` has for its stream id, since only the task of
the session removes it, after `end_request`; and a call that consumes a message holds the lock, so
that the task is not past it.
-/

namespace ServiceLib

namespace StreamSession

/-! ## Sessions -/

inductive Mode
  | clientStreaming
  | bidiStreaming
  deriving DecidableEq

structure Config where
  mode : Mode
  hash : String → ℕ
  minCapacity : ℕ

abbrev HandlerResult := Except String Unit

/-- The `OnceCell` of a session, and how far its initialization is. -/
inductive Cell
  | empty
  /-- `begin_request` runs. -/
  | beginning
  /-- The client function runs. -/
  | creating
  /-- The call could not be created: `end_request` runs. -/
  | rejecting (error : String)
  /-- The tasks of the session are spawned, and the value is not set yet. -/
  | publishing
  /-- Set to `None`. -/
  | failed
  /-- Set to the session. -/
  | ready
  deriving DecidableEq

/-- What follows when the session takes no further messages. -/
inductive Next
  | closeAndRecv
  | complete (result : HandlerResult)
  deriving DecidableEq

/-- What follows when the last handler has released the lifetime lock. -/
inductive AfterLock
  | handleResponse
  | complete (result : HandlerResult)
  deriving DecidableEq

/-- The task that ends the session: the finalizer, or the receive loop. -/
inductive TaskPc
  | idle
  /-- For `done` or the context. -/
  | waiting
  | receiving
  /-- `handle_response` runs, and the loop goes on. -/
  | responding
  /-- `finished.cancel()` is next. -/
  | finishing (next : Next)
  | closing
  /-- `lifetime.write()` -/
  | locking (after : AfterLock)
  /-- `handle_response` runs, once. -/
  | handling
  /-- `end_request` runs. -/
  | ending (result : HandlerResult)
  | removing
  /-- `receive_finished.send(())` is next. -/
  | signalling
  | stopped
  deriving DecidableEq

/-- The task that calls `close_send` of a bidirectional session. -/
inductive CloserPc
  | absent
  | waiting
  | closing
  | closed

/-- Ghost: how often the cell was initialized, `begin_request` succeeded, and `end_request` was
called and returned. -/
structure Record where
  initialized : ℕ
  begun : ℕ
  endings : ℕ
  ended : ℕ
  deriving DecidableEq

structure Session where
  streamId : String
  cell : Cell
  task : TaskPc
  closer : CloserPc
  /-- `result_context` -/
  done : Bool
  /-- The context of the session. -/
  cancelled : Bool
  finished : Bool
  record : Record

def Session.new (streamId : String) : Session :=
  ⟨streamId, .empty, .idle, .absent, false, false, false, ⟨0, 0, 0, 0⟩⟩

/-- What happens to a session on its own. -/
inductive Event
  /-- `begin_request` returns. -/
  | begun (ok : Bool)
  | created (result : HandlerResult)
  | rejected
  | published
  /-- The user calls `done`. -/
  | done
  | cancelled
  /-- The finalizer wakes up, for the context or for `done`. -/
  | wake (cancelled : Bool)
  /-- `recv()` returns; is there a response? -/
  | received (result : Except String Bool)
  | responded (result : HandlerResult)
  | finish
  | closedAndReceived (result : HandlerResult)
  | ended
  | signalled
  | closeSend
  | closedSend

namespace Session

def beginInit (s : Session) : Session :=
  { s with cell := .beginning, record := { s.record with initialized := s.record.initialized + 1 } }

def callEnd (s : Session) : Session :=
  { s with record := { s.record with endings := s.record.endings + 1 } }

def returnEnd (s : Session) : Session :=
  { s with record := { s.record with ended := s.record.ended + 1 } }

/-- `Some(pending)` is on its way, and the tasks are spawned. -/
def spawn (mode : Mode) (s : Session) : Session :=
  match mode with
  | .clientStreaming => { s with cell := .publishing, task := .waiting }
  | .bidiStreaming => { s with cell := .publishing, task := .receiving, closer := .waiting }

def step (mode : Mode) (s : Session) : Event → Option Session
  | .begun ok =>
    match s.cell with
    | .beginning =>
      if ok then
        some { s with cell := .creating, record := { s.record with begun := s.record.begun + 1 } }
      else some { s with cell := .failed }
    | _ => none
  | .created result =>
    match s.cell with
    | .creating =>
      match result with
      | .ok () => some (s.spawn mode)
      | .error error => some { s.callEnd with cell := .rejecting error }
    | _ => none
  | .rejected =>
    match s.cell with
    | .rejecting _ => some { s.returnEnd with cell := .failed }
    | _ => none
  | .published =>
    match s.cell with
    | .publishing => some { s with cell := .ready }
    | _ => none
  | .done =>
    match s.task with
    | .idle => none
    | _ => some { s with done := true }
  | .cancelled => some { s with cancelled := true }
  | .wake cancelled =>
    match s.task with
    | .waiting =>
      if cancelled then
        if s.cancelled then
          some { s with
            task := .finishing (.complete (.error "gRPC client stream context cancelled")) }
        else none
      else if s.done then some { s with task := .finishing .closeAndRecv } else none
    | _ => none
  | .received result =>
    match s.task with
    | .receiving =>
      match result with
      | .ok true => some { s with task := .responding }
      | .ok false => some { s with task := .finishing (.complete (.ok ())) }
      | .error error => some { s with task := .finishing (.complete (.error error)) }
    | _ => none
  | .responded result =>
    match s.task with
    | .responding =>
      match result with
      | .ok () => some { s with task := .receiving }
      | .error error => some { s with task := .finishing (.complete (.error error)) }
    | .handling => some { s.callEnd with task := .ending result }
    | _ => none
  | .finish =>
    match s.task with
    | .finishing .closeAndRecv => some { s with task := .closing, finished := true }
    | .finishing (.complete result) =>
      some { s with task := .locking (.complete result), finished := true }
    | _ => none
  | .closedAndReceived result =>
    match s.task with
    | .closing =>
      match result with
      | .ok () => some { s with task := .locking .handleResponse }
      | .error error => some { s with task := .locking (.complete (.error error)) }
    | _ => none
  | .ended =>
    match s.task with
    | .ending _ => some { s.returnEnd with task := .removing }
    | _ => none
  | .signalled =>
    match s.task with
    | .signalling => some { s with task := .stopped }
    | _ => none
  | .closeSend =>
    match s.closer, s.done || s.cancelled, s.task with
    | .waiting, true, _ => some { s with closer := .closing }
    | .waiting, false, .stopped => some { s with closer := .closing }
    | _, _, _ => none
  | .closedSend =>
    match s.closer with
    | .closing => some { s with closer := .closed }
    | _ => none

/-- `lifetime.write()` returns, and the lock is released at once. -/
def lock (s : Session) : Option Session :=
  match s.task with
  | .locking .handleResponse => some { s with task := .handling }
  | .locking (.complete result) => some { s.callEnd with task := .ending result }
  | _ => none

/-- After `pop_if`. -/
def removed (mode : Mode) (s : Session) : Session :=
  match mode with
  | .clientStreaming => { s with task := .stopped }
  | .bidiStreaming => { s with task := .signalling }

end Session

/-! ## Calls of `consume` -/

inductive CallPc
  | entering
  /-- `cell.get_or_init` -/
  | awaiting (c : ℕ)
  /-- The cell is set to `None`. -/
  | abandoning (c : ℕ)
  /-- `finished.cancelled()` or `lifetime.read()` -/
  | selecting (c : ℕ)
  /-- Has the lock; `finished` is checked next. -/
  | admitted (c : ℕ)
  | consuming (c : ℕ)
  /-- `consume_message` has failed; `done` is next. -/
  | reporting (c : ℕ)
  | releasing (c : ℕ)
  | returned
  deriving DecidableEq

structure Call where
  streamId : String
  pc : CallPc

/-- Does the call hold the lifetime lock of the session? -/
def CallPc.holds (c : ℕ) : CallPc → Bool
  | .admitted c' | .consuming c' | .reporting c' | .releasing c' => c' = c
  | _ => false

/-- The cells are numbered in the order of their creation. -/
structure State where
  pending : RotatingMap String ℕ
  sessions : List Session
  calls : List Call

def State.init : State := ⟨RotatingMap.new, [], []⟩

def State.setCall (s : State) (i : ℕ) (call : Call) (pc : CallPc) : State :=
  { s with calls := s.calls.set i { call with pc := pc } }

def State.setSession (s : State) (c : ℕ) (e : Session) : State :=
  { s with sessions := s.sessions.set c e }

def State.held (s : State) (c : ℕ) : Bool := s.calls.any fun call => call.pc.holds c

inductive Action
  | consume (streamId : String)
  /-- `get_or_create`, if the stream is still there. -/
  | enter (i : ℕ) (alive : Bool)
  /-- The cell is free, or set. -/
  | get (i : ℕ)
  | abandon (i : ℕ)
  | reject (i : ℕ)
  | acquire (i : ℕ)
  | check (i : ℕ)
  | consumed (i : ℕ) (ok : Bool)
  | report (i : ℕ)
  | release (i : ℕ)
  | session (c : ℕ) (e : Event)
  | lock (c : ℕ)
  | remove (c : ℕ)
  | rotate (j : Fin RotatingMap.shardCount) (order : IterOrder String ℕ)

def step (cfg : Config) (s : State) : Action → Option State
  | .consume streamId => some { s with calls := s.calls ++ [⟨streamId, .entering⟩] }
  | .enter i alive =>
    match s.calls[i]? with
    | some ⟨streamId, .entering⟩ =>
      if alive then
        let (pending, c, found) :=
          s.pending.getOrCreate cfg.hash streamId fun _ => s.sessions.length
        some
          { pending
            sessions := if found then s.sessions else s.sessions ++ [.new streamId]
            calls := s.calls.set i ⟨streamId, .awaiting c⟩ }
      else some (s.setCall i ⟨streamId, .entering⟩ .returned)
    | _ => none
  | .get i =>
    match s.calls[i]? with
    | some ⟨streamId, .awaiting c⟩ =>
      match s.sessions[c]? with
      | none => none
      | some e =>
        match e.cell with
        | .empty => some (s.setSession c e.beginInit)
        | .failed => some (s.setCall i ⟨streamId, .awaiting c⟩ (.abandoning c))
        | .ready => some (s.setCall i ⟨streamId, .awaiting c⟩ (.selecting c))
        | _ => none
    | _ => none
  | .abandon i =>
    match s.calls[i]? with
    | some ⟨streamId, .abandoning c⟩ =>
      some { s.setCall i ⟨streamId, .abandoning c⟩ .returned with
        pending := (s.pending.popIf cfg.hash streamId fun c' => c' = c).1 }
    | _ => none
  | .reject i =>
    match s.calls[i]? with
    | some ⟨streamId, .selecting c⟩ =>
      match s.sessions[c]? with
      | none => none
      | some e =>
        if e.finished then some (s.setCall i ⟨streamId, .selecting c⟩ .returned) else none
    | _ => none
  | .acquire i =>
    match s.calls[i]? with
    | some ⟨streamId, .selecting c⟩ => some (s.setCall i ⟨streamId, .selecting c⟩ (.admitted c))
    | _ => none
  | .check i =>
    match s.calls[i]? with
    | some ⟨streamId, .admitted c⟩ =>
      match s.sessions[c]? with
      | none => none
      | some e =>
        if e.finished then some (s.setCall i ⟨streamId, .admitted c⟩ .returned)
        else some (s.setCall i ⟨streamId, .admitted c⟩ (.consuming c))
    | _ => none
  | .consumed i ok =>
    match s.calls[i]? with
    | some ⟨streamId, .consuming c⟩ =>
      some (s.setCall i ⟨streamId, .consuming c⟩ (if ok then .releasing c else .reporting c))
    | _ => none
  | .report i =>
    match s.calls[i]? with
    | some ⟨streamId, .reporting c⟩ =>
      match s.sessions[c]? with
      | none => none
      | some e =>
        some ((s.setSession c { e with done := true }).setCall i ⟨streamId, .reporting c⟩
          (.releasing c))
    | _ => none
  | .release i =>
    match s.calls[i]? with
    | some ⟨streamId, .releasing c⟩ => some (s.setCall i ⟨streamId, .releasing c⟩ .returned)
    | _ => none
  | .session c event =>
    match s.sessions[c]? with
    | none => none
    | some e => (e.step cfg.mode event).map fun e' => s.setSession c e'
  | .lock c =>
    match s.sessions[c]? with
    | none => none
    | some e => if s.held c then none else e.lock.map fun e' => s.setSession c e'
  | .remove c =>
    match s.sessions[c]? with
    | none => none
    | some e =>
      match e.task with
      | .removing =>
        some { s.setSession c (e.removed cfg.mode) with
          pending := (s.pending.popIf cfg.hash e.streamId fun c' => c' = c).1 }
      | _ => none
  | .rotate j order =>
    some { s with
      pending := s.pending.setShard j ((s.pending.shards j).rotateShard cfg.minCapacity order) }

def system (cfg : Config) : System State Action where
  init := .init
  step := step cfg

/-! ## One session -/

/-- Calls of `end_request` by the task. -/
def TaskPc.endings : TaskPc → ℕ
  | .ending _ | .removing | .signalling | .stopped => 1
  | _ => 0

/-- Those that have returned. -/
def TaskPc.ended : TaskPc → ℕ
  | .removing | .signalling | .stopped => 1
  | _ => 0

/-- `finished.cancel()` was called. -/
def TaskPc.sealed : TaskPc → Bool
  | .idle | .waiting | .receiving | .responding | .finishing _ => false
  | _ => true

/-- The lifetime lock was taken for writing. -/
def TaskPc.drained : TaskPc → Bool
  | .handling | .ending _ | .removing | .signalling | .stopped => true
  | _ => false

/-- The entry of the session was removed. -/
def TaskPc.gone : TaskPc → Bool
  | .signalling | .stopped => true
  | _ => false

theorem TaskPc.sealed_of_drained {task : TaskPc} (h : task.drained = true) :
    task.sealed = true := by
  cases task <;> first | rfl | simp [drained] at h

/-- What the cell and the task say about the record. -/
def Session.Ok (s : Session) : Prop :=
  match s.cell with
  | .empty => s.task = .idle ∧ s.record = ⟨0, 0, 0, 0⟩
  | .beginning => s.task = .idle ∧ s.record = ⟨1, 0, 0, 0⟩
  | .creating => s.task = .idle ∧ s.record = ⟨1, 1, 0, 0⟩
  | .rejecting _ => s.task = .idle ∧ s.record = ⟨1, 1, 1, 0⟩
  | .failed => s.task = .idle ∧ (s.record = ⟨1, 0, 0, 0⟩ ∨ s.record = ⟨1, 1, 1, 1⟩)
  | .publishing | .ready =>
    s.task ≠ .idle ∧ s.record = ⟨1, 1, s.task.endings, s.task.ended⟩ ∧
      (s.task.sealed = true → s.finished = true)

/-- What a session keeps while the calls are not looking. -/
structure Session.Follows (s t : Session) : Prop where
  streamId : t.streamId = s.streamId
  failed : s.cell = .failed → t.cell = .failed
  ready : s.cell = .ready → t.cell = .ready
  gone : t.task.gone = s.task.gone

variable {cfg : Config} {mode : Mode}

/-- A step of the task, which leaves the cell alone. -/
theorem Session.follows_task {s t : Session} (hid : t.streamId = s.streamId)
    (hcell : t.cell = s.cell) (hgone : t.task.gone = s.task.gone) : s.Follows t :=
  ⟨hid, fun h => hcell.trans h, fun h => hcell.trans h, hgone⟩

/-- A step of the initialization, which the task has to wait for. -/
theorem Session.follows_cell {s t : Session} (hid : t.streamId = s.streamId)
    (hfailed : s.cell ≠ .failed) (hready : s.cell ≠ .ready)
    (hgone : t.task.gone = s.task.gone) : s.Follows t :=
  ⟨hid, fun h => absurd h hfailed, fun h => absurd h hready, hgone⟩

/-- The session has its tasks. -/
structure Session.Live (s : Session) : Prop where
  cell : s.cell = .publishing ∨ s.cell = .ready
  task : s.task ≠ .idle
  record : s.record = ⟨1, 1, s.task.endings, s.task.ended⟩
  finished : s.task.sealed = true → s.finished = true

theorem Session.Ok.live {s : Session} (h : s.Ok) (ht : s.task ≠ .idle) : s.Live := by
  unfold Session.Ok at h
  cases hc : s.cell <;> rw [hc] at h
  case publishing => exact ⟨.inl hc, h.1, h.2.1, h.2.2⟩
  case ready => exact ⟨.inr hc, h.1, h.2.1, h.2.2⟩
  all_goals exact absurd h.1 ht

theorem Session.Live.ok {s : Session} (h : s.Live) : s.Ok := by
  unfold Session.Ok
  rcases h.cell with hc | hc
  · rw [hc]
    exact ⟨h.task, h.record, h.finished⟩
  · rw [hc]
    exact ⟨h.task, h.record, h.finished⟩

/-- The task goes on, and `end_request` is neither called nor has it returned. -/
theorem Session.Live.move {s : Session} (h : s.Live) {task : TaskPc} (finished : Bool)
    (ht : task ≠ .idle) (hend : task.endings = s.task.endings) (hended : task.ended = s.task.ended)
    (hf : task.sealed = true → finished = true) :
    Session.Live { s with task, finished } where
  cell := h.cell
  task := ht
  record := by
    show s.record = _
    rw [h.record, hend, hended]
  finished := hf

theorem Session.Live.callEnd {s : Session} (h : s.Live) (result : HandlerResult)
    (hs : s.task.sealed = true) (hend : s.task.endings = 0) :
    Session.Live { s.callEnd with task := .ending result } where
  cell := h.cell
  task := by simp
  record := by
    show ({ s.record with endings := s.record.endings + 1 } : Record) = ⟨1, 1, 1, 0⟩
    have hended : s.task.ended = 0 := by
      cases hp : s.task <;> first | rfl | simp [hp, TaskPc.endings] at hend
    rw [h.record, hend, hended]
  finished := fun _ => h.finished hs

theorem Session.step_done {s t : Session} (hs : s.step mode .done = some t) :
    t = { s with done := true } := by
  cases hp : s.task <;> simp only [Session.step, hp, Option.some.injEq, reduceCtorEq] at hs
  all_goals exact hs.symm

/-- What a session does on its own keeps its record right. -/
theorem Session.Ok.step {s t : Session} {event : Event} (h : s.Ok)
    (hs : s.step mode event = some t) : t.Ok := by
  cases event with
  | begun ok =>
    cases hc : s.cell <;> simp only [Session.step, hc, reduceCtorEq] at hs
    simp only [Session.Ok, hc] at h
    split_ifs at hs <;> cases hs
    · exact ⟨h.1, by simp [h.2]⟩
    · exact ⟨h.1, .inl h.2⟩
  | created result =>
    cases hc : s.cell <;> simp only [Session.step, hc, reduceCtorEq] at hs
    simp only [Session.Ok, hc] at h
    cases result with
    | ok _ =>
      cases hs
      cases mode
      · exact ⟨by simp [spawn], h.2, by simp [spawn, TaskPc.sealed]⟩
      · exact ⟨by simp [spawn], h.2, by simp [spawn, TaskPc.sealed]⟩
    | error error =>
      cases hs
      exact ⟨h.1, by simp [callEnd, h.2]⟩
  | rejected =>
    cases hc : s.cell <;> simp only [Session.step, hc, reduceCtorEq] at hs
    simp only [Session.Ok, hc] at h
    cases hs
    exact ⟨h.1, .inr (by simp [returnEnd, h.2])⟩
  | published =>
    cases hc : s.cell <;> simp only [Session.step, hc, reduceCtorEq] at hs
    simp only [Session.Ok, hc] at h
    cases hs
    exact h
  | done =>
    rw [step_done hs]
    exact h
  | cancelled =>
    cases hs
    exact h
  | wake cancelled =>
    cases ht : s.task <;> simp only [Session.step, ht, reduceCtorEq] at hs
    have hl := h.live (by simp [ht])
    split_ifs at hs <;> cases hs
    · exact (hl.move s.finished (by simp) (by rw [ht]; rfl) (by rw [ht]; rfl)
        (by simp [TaskPc.sealed])).ok
    · exact (hl.move s.finished (by simp) (by rw [ht]; rfl) (by rw [ht]; rfl)
        (by simp [TaskPc.sealed])).ok
  | received result =>
    cases ht : s.task <;> simp only [Session.step, ht, reduceCtorEq] at hs
    have hl := h.live (by simp [ht])
    split at hs <;> cases hs
    all_goals
      exact (hl.move s.finished (by simp) (by rw [ht]; rfl) (by rw [ht]; rfl)
        (by simp [TaskPc.sealed])).ok
  | responded result =>
    cases ht : s.task <;> simp only [Session.step, ht, reduceCtorEq] at hs
    · have hl := h.live (by simp [ht])
      split at hs <;> cases hs
      all_goals
        exact (hl.move s.finished (by simp) (by rw [ht]; rfl) (by rw [ht]; rfl)
        (by simp [TaskPc.sealed])).ok
    · cases hs
      exact ((h.live (by simp [ht])).callEnd result (by rw [ht]; rfl) (by rw [ht]; rfl)).ok
  | finish =>
    cases ht : s.task <;> simp only [Session.step, ht, reduceCtorEq] at hs
    have hl := h.live (by simp [ht])
    split at hs <;> cases hs
    all_goals
      exact (hl.move true (by simp) (by rw [ht]; rfl) (by rw [ht]; rfl) fun _ => rfl).ok
  | closedAndReceived result =>
    cases ht : s.task <;> simp only [Session.step, ht, reduceCtorEq] at hs
    have hl := h.live (by simp [ht])
    have hf := hl.finished (by rw [ht]; rfl)
    split at hs <;> cases hs
    all_goals
      exact (hl.move s.finished (by simp) (by rw [ht]; rfl) (by rw [ht]; rfl) fun _ => hf).ok
  | ended =>
    cases ht : s.task <;> simp only [Session.step, ht, reduceCtorEq] at hs
    have hl := h.live (by simp [ht])
    cases hs
    refine Session.Live.ok ⟨hl.cell, by simp, ?_, fun _ => hl.finished (by rw [ht]; rfl)⟩
    show ({ s.record with ended := s.record.ended + 1 } : Record) = ⟨1, 1, 1, 1⟩
    rw [hl.record, ht]
    rfl
  | signalled =>
    cases ht : s.task <;> simp only [Session.step, ht, reduceCtorEq] at hs
    have hl := h.live (by simp [ht])
    have hf := hl.finished (by rw [ht]; rfl)
    cases hs
    exact (hl.move s.finished (by simp) (by rw [ht]; rfl) (by rw [ht]; rfl) fun _ => hf).ok
  | closeSend =>
    simp only [Session.step] at hs
    split at hs <;> cases hs
    all_goals exact h
  | closedSend =>
    simp only [Session.step] at hs
    split at hs <;> cases hs
    exact h

theorem Session.step_follows {s t : Session} {event : Event} (h : s.Ok)
    (hs : s.step mode event = some t) :
    s.Follows t ∧ (t.task.drained = true → s.task.drained = true) := by
  cases event with
  | begun ok =>
    cases hc : s.cell <;> simp only [Session.step, hc, reduceCtorEq] at hs
    split_ifs at hs <;> cases hs
    all_goals exact ⟨follows_cell rfl (by simp [hc]) (by simp [hc]) rfl, id⟩
  | created result =>
    cases hc : s.cell <;> simp only [Session.step, hc, reduceCtorEq] at hs
    simp only [Session.Ok, hc] at h
    cases result with
    | ok _ =>
      cases hs
      cases mode
      all_goals
        exact ⟨follows_cell rfl (by simp [hc]) (by simp [hc]) (by rw [h.1]; rfl), fun hd => by
          simp [spawn, TaskPc.drained] at hd⟩
    | error error =>
      cases hs
      exact ⟨follows_cell rfl (by simp [hc]) (by simp [hc]) rfl, id⟩
  | rejected =>
    cases hc : s.cell <;> simp only [Session.step, hc, reduceCtorEq] at hs
    cases hs
    exact ⟨follows_cell rfl (by simp [hc]) (by simp [hc]) rfl, id⟩
  | published =>
    cases hc : s.cell <;> simp only [Session.step, hc, reduceCtorEq] at hs
    cases hs
    exact ⟨follows_cell rfl (by simp [hc]) (by simp [hc]) rfl, id⟩
  | done =>
    rw [step_done hs]
    exact ⟨follows_task rfl rfl rfl, id⟩
  | cancelled =>
    cases hs
    exact ⟨follows_task rfl rfl rfl, id⟩
  | wake cancelled =>
    cases ht : s.task <;> simp only [Session.step, ht, reduceCtorEq] at hs
    split_ifs at hs <;> cases hs
    all_goals exact ⟨follows_task rfl rfl (by rw [ht]; rfl), fun hd => hd⟩
  | received result =>
    cases ht : s.task <;> simp only [Session.step, ht, reduceCtorEq] at hs
    split at hs <;> cases hs
    all_goals exact ⟨follows_task rfl rfl (by rw [ht]; rfl), fun hd => hd⟩
  | responded result =>
    cases ht : s.task <;> simp only [Session.step, ht, reduceCtorEq] at hs
    · split at hs <;> cases hs
      all_goals exact ⟨follows_task rfl rfl (by rw [ht]; rfl), fun hd => hd⟩
    · cases hs
      exact ⟨follows_task rfl rfl (by rw [ht]; rfl), fun _ => rfl⟩
  | finish =>
    cases ht : s.task <;> simp only [Session.step, ht, reduceCtorEq] at hs
    split at hs <;> cases hs
    all_goals exact ⟨follows_task rfl rfl (by rw [ht]; rfl), fun hd => hd⟩
  | closedAndReceived result =>
    cases ht : s.task <;> simp only [Session.step, ht, reduceCtorEq] at hs
    split at hs <;> cases hs
    all_goals exact ⟨follows_task rfl rfl (by rw [ht]; rfl), fun hd => hd⟩
  | ended =>
    cases ht : s.task <;> simp only [Session.step, ht, reduceCtorEq] at hs
    cases hs
    exact ⟨follows_task rfl rfl (by rw [ht]; rfl), fun _ => rfl⟩
  | signalled =>
    cases ht : s.task <;> simp only [Session.step, ht, reduceCtorEq] at hs
    cases hs
    exact ⟨follows_task rfl rfl (by rw [ht]; rfl), fun _ => rfl⟩
  | closeSend =>
    simp only [Session.step] at hs
    split at hs <;> cases hs
    all_goals exact ⟨follows_task rfl rfl rfl, id⟩
  | closedSend =>
    simp only [Session.step] at hs
    split at hs <;> cases hs
    exact ⟨follows_task rfl rfl rfl, id⟩

/-- `lifetime.write()` starts the callbacks that end the session. -/
theorem Session.Ok.lock {s t : Session} (h : s.Ok) (hs : s.lock = some t) :
    t.Ok ∧ s.Follows t := by
  cases ht : s.task <;> simp only [Session.lock, ht, reduceCtorEq] at hs
  have hl := h.live (by simp [ht])
  split at hs <;> cases hs
  · refine ⟨(hl.move s.finished (by simp) (by rw [ht]; rfl) (by rw [ht]; rfl) fun _ =>
      hl.finished (by rw [ht]; rfl)).ok, follows_task rfl rfl (by rw [ht]; rfl)⟩
  · exact ⟨(hl.callEnd _ (by rw [ht]; rfl) (by rw [ht]; rfl)).ok,
      follows_task rfl rfl (by rw [ht]; rfl)⟩

theorem Session.Ok.removed {s : Session} (h : s.Ok) (ht : s.task = .removing) :
    (s.removed mode).Ok := by
  have hl := h.live (by simp [ht])
  have hf := hl.finished (by rw [ht]; rfl)
  cases mode
  all_goals
    exact (hl.move s.finished (by simp) (by rw [ht]; rfl) (by rw [ht]; rfl) fun _ => hf).ok

theorem Session.Ok.beginInit {s : Session} (h : s.Ok) (hc : s.cell = .empty) :
    s.beginInit.Ok ∧ s.Follows s.beginInit := by
  simp only [Session.Ok, hc] at h
  exact ⟨⟨h.1, by simp [Session.beginInit, h.2]⟩,
    follows_cell rfl (by simp [hc]) (by simp [hc]) rfl⟩

/-! ## The calls of a session -/

def CallPc.cell : CallPc → Option ℕ
  | .awaiting c | .abandoning c | .selecting c | .admitted c | .consuming c | .reporting c
  | .releasing c => some c
  | .entering | .returned => none

/-- A call that will look at the outcome of the initialization. -/
def CallPc.waitsFor (c : ℕ) : CallPc → Bool
  | .awaiting c' | .abandoning c' => c' = c
  | _ => false

/-- What a call has seen of its session. -/
def CallPc.Needs (e : Session) : CallPc → Prop
  | .abandoning _ => e.cell = .failed
  | .selecting _ | .admitted _ => e.cell = .ready
  | .consuming _ | .reporting _ | .releasing _ => e.cell = .ready ∧ e.task.drained = false
  | _ => True

def CallOk (sessions : List Session) (call : Call) : Prop :=
  ∀ c, call.pc.cell = some c →
    ∃ e, sessions[c]? = some e ∧ e.streamId = call.streamId ∧ call.pc.Needs e

/-- Only the write lock can take from a call what it has seen, and no call that holds the lock. -/
theorem CallPc.Needs.follows {e e' : Session} {pc : CallPc} {c : ℕ} (h : pc.Needs e)
    (hf : e.Follows e') (hc : pc.cell = some c)
    (hd : e'.task.drained = true → e.task.drained = true ∨ pc.holds c = false) : pc.Needs e' := by
  have hdrained : e.task.drained = false → pc.holds c = true → e'.task.drained = false := by
    intro hdr hh
    cases hd' : e'.task.drained with
    | false => rfl
    | true =>
      rcases hd hd' with hd | hd
      · rw [hd] at hdr
        cases hdr
      · rw [hd] at hh
        cases hh
  cases pc <;> simp only [CallPc.cell, Option.some.injEq, reduceCtorEq] at hc <;>
    simp only [CallPc.Needs] at h ⊢
  case abandoning => exact hf.failed h
  case selecting => exact hf.ready h
  case admitted => exact hf.ready h
  all_goals exact ⟨hf.ready h.1, hdrained h.2 (by simp [CallPc.holds, hc])⟩

theorem CallOk.append {sessions : List Session} {call : Call} (h : CallOk sessions call)
    (e : Session) : CallOk (sessions ++ [e]) call := by
  intro c hc
  obtain ⟨e', he', hrest⟩ := h c hc
  exact ⟨e', by rw [List.getElem?_append_left (List.getElem?_eq_some_iff.mp he').1, he'], hrest⟩

theorem CallOk.set {sessions : List Session} {call : Call} (h : CallOk sessions call) {c : ℕ}
    {e e' : Session} (he : sessions[c]? = some e) (hf : e.Follows e')
    (hd : e'.task.drained = true → e.task.drained = true ∨ call.pc.holds c = false) :
    CallOk (sessions.set c e') call := by
  intro c' hc'
  obtain ⟨e₀, he₀, hid, hn⟩ := h c' hc'
  by_cases hcc : c' = c
  · subst hcc
    rw [he, Option.some.injEq] at he₀
    subst he₀
    exact ⟨e', List.getElem?_set_self (List.getElem?_eq_some_iff.mp he).1,
      hf.streamId.trans hid, hn.follows hf hc' hd⟩
  · exact ⟨e₀, by rw [List.getElem?_set_ne (Ne.symm hcc), he₀], hid, hn⟩

/-! ## The invariant -/

/-- `a` is what `pending` contains. -/
structure Inv (cfg : Config) (s : State) (a : HashMap String ℕ) : Prop where
  refines : RotatingMap.Refines cfg.hash s.pending a
  bound : ∀ k c, a.lookup k = some c →
    ∃ e, s.sessions[c]? = some e ∧ e.streamId = k ∧ e.task.gone = false
  attached : ∀ (c : ℕ) e, s.sessions[c]? = some e → e.cell ≠ .failed → e.task.gone = false →
    a.lookup e.streamId = some c
  ok : ∀ (c : ℕ) e, s.sessions[c]? = some e → e.Ok
  calls : ∀ (i : ℕ) call, s.calls[i]? = some call → CallOk s.sessions call
  /-- An entry without a session has a call that removes it. -/
  awaited : ∀ (c : ℕ) e, s.sessions[c]? = some e → e.cell ≠ .ready →
    a.lookup e.streamId = some c →
    ∃ (i : ℕ) (call : Call), s.calls[i]? = some call ∧ call.pc.waitsFor c = true

variable {s t : State} {a : HashMap String ℕ}

theorem inv_init : Inv cfg State.init ∅ where
  refines := RotatingMap.refines_new cfg.hash
  bound := by
    intro k c h
    simp at h
  attached := by
    intro c e h
    simp [State.init] at h
  ok := by
    intro c e h
    simp [State.init] at h
  calls := by
    intro i call h
    simp [State.init] at h
  awaited := by
    intro c e h
    simp [State.init] at h

theorem Inv.setSession (h : Inv cfg s a) {c : ℕ} {e e' : Session} (hc : s.sessions[c]? = some e)
    (hok : e'.Ok) (hf : e.Follows e')
    (hd : e'.task.drained = true → e.task.drained = true ∨ s.held c = false) :
    Inv cfg (s.setSession c e') a := by
  have hself : (s.sessions.set c e')[c]? = some e' :=
    List.getElem?_set_self (List.getElem?_eq_some_iff.mp hc).1
  have hne : ∀ {c'}, c' ≠ c → (s.sessions.set c e')[c']? = s.sessions[c']? :=
    fun hcc => List.getElem?_set_ne (Ne.symm hcc)
  refine ⟨h.refines, fun k c' hk => ?_, fun c' x hx hfail hgone => ?_, fun c' x hx => ?_,
    fun i call hi => ?_, fun c' x hx hready hk => ?_⟩
  · obtain ⟨x, hx, hid, hgone⟩ := h.bound k c' hk
    by_cases hcc : c' = c
    · subst hcc
      rw [hc, Option.some.injEq] at hx
      subst hx
      exact ⟨e', hself, hf.streamId.trans hid, hf.gone.trans hgone⟩
    · exact ⟨x, (hne hcc).trans hx, hid, hgone⟩
  · change (s.sessions.set c e')[c']? = some x at hx
    by_cases hcc : c' = c
    · subst hcc
      rw [hself, Option.some.injEq] at hx
      subst hx
      rw [hf.streamId]
      exact h.attached c' e hc (fun hcell => hfail (hf.failed hcell)) (hf.gone ▸ hgone)
    · exact h.attached c' x ((hne hcc).symm.trans hx) hfail hgone
  · change (s.sessions.set c e')[c']? = some x at hx
    by_cases hcc : c' = c
    · subst hcc
      rw [hself, Option.some.injEq] at hx
      exact hx ▸ hok
    · exact h.ok c' x ((hne hcc).symm.trans hx)
  · refine (h.calls i call hi).set hc hf fun hdr => (hd hdr).imp_right fun hheld => ?_
    simp only [State.held, List.any_eq_false, Bool.not_eq_true] at hheld
    exact hheld call (List.mem_of_getElem? hi)
  · change (s.sessions.set c e')[c']? = some x at hx
    by_cases hcc : c' = c
    · subst hcc
      rw [hself, Option.some.injEq] at hx
      subst hx
      rw [hf.streamId] at hk
      exact h.awaited c' e hc (fun hcell => hready (hf.ready hcell)) hk
    · exact h.awaited c' x ((hne hcc).symm.trans hx) hready hk

/-- A call goes on. If it waited for a session, it still does, or there is no need to. -/
theorem Inv.setCall (h : Inv cfg s a) {i : ℕ} {call : Call} {pc : CallPc}
    (hi : s.calls[i]? = some call) (hok : CallOk s.sessions { call with pc })
    (hw : ∀ c, call.pc.waitsFor c = true → pc.waitsFor c = true ∨
      ∃ e, s.sessions[c]? = some e ∧ (e.cell = .ready ∨ a.lookup e.streamId ≠ some c)) :
    Inv cfg (s.setCall i call pc) a := by
  have hself : (s.calls.set i { call with pc })[i]? = some { call with pc } :=
    List.getElem?_set_self (List.getElem?_eq_some_iff.mp hi).1
  have hne : ∀ {j}, j ≠ i → (s.calls.set i { call with pc })[j]? = s.calls[j]? :=
    fun hj => List.getElem?_set_ne (Ne.symm hj)
  refine ⟨h.refines, h.bound, h.attached, h.ok, fun j x hj => ?_, fun c e he hready hk => ?_⟩
  · change (s.calls.set i { call with pc })[j]? = some x at hj
    by_cases hij : j = i
    · subst hij
      rw [hself, Option.some.injEq] at hj
      exact hj ▸ hok
    · exact h.calls j x ((hne hij).symm.trans hj)
  · obtain ⟨j, x, hj, hx⟩ := h.awaited c e he hready hk
    by_cases hij : j = i
    · subst hij
      rw [hi, Option.some.injEq] at hj
      subst hj
      rcases hw c hx with hpc | ⟨e', he', hor⟩
      · exact ⟨j, _, hself, hpc⟩
      · change s.sessions[c]? = some e at he
        rw [he, Option.some.injEq] at he'
        subst he'
        exact absurd hk (hor.resolve_left hready)
    · exact ⟨j, x, (hne hij).trans hj, hx⟩

/-! ### Entries of `pending` -/

theorem eraseIf_lookup_of_ne {a : HashMap String ℕ} {k k' : String} {c c' : ℕ}
    (h : a.lookup k' = some c') (hc : c' ≠ c) :
    (RotatingMap.eraseIf a k fun x => x = c).lookup k' = some c' := by
  unfold RotatingMap.eraseIf
  split
  · rename_i v hv
    split_ifs with hvc
    · rw [RotatingMap.lookup_erase_ite, if_neg, h]
      intro hk
      subst hk
      rw [hv, Option.some.injEq] at h
      exact hc (h ▸ of_decide_eq_true hvc)
    · exact h
  · exact h

theorem lookup_of_eraseIf {a : HashMap String ℕ} {k k' : String} {p : ℕ → Bool} {c : ℕ}
    (h : (RotatingMap.eraseIf a k p).lookup k' = some c) : a.lookup k' = some c := by
  unfold RotatingMap.eraseIf at h
  split at h
  · split_ifs at h
    · rw [RotatingMap.lookup_erase_ite] at h
      split_ifs at h
      exact h
    · exact h
  · exact h

theorem eraseIf_lookup_self {a : HashMap String ℕ} {k : String} {c : ℕ} :
    (RotatingMap.eraseIf a k fun x => x = c).lookup k ≠ some c := by
  unfold RotatingMap.eraseIf
  split
  · rename_i v hv
    split_ifs with hvc
    · simp
    · intro h
      rw [hv, Option.some.injEq] at h
      exact hvc (decide_eq_true h)
  · rename_i hn
    simp [hn]

/-- `pop_if` by a call that has seen the initialization fail. -/
theorem Inv.popFailed (h : Inv cfg s a) {c : ℕ} {e : Session} (hc : s.sessions[c]? = some e)
    (hfail : e.cell = .failed) (k : String) :
    Inv cfg { s with pending := (s.pending.popIf cfg.hash k fun c' => c' = c).1 }
      (RotatingMap.eraseIf a k fun c' => c' = c) where
  refines := (h.refines.popIf k _).2
  bound := fun k' c' hk => h.bound k' c' (lookup_of_eraseIf hk)
  attached := by
    intro c' x hx hnf hgone
    refine eraseIf_lookup_of_ne (h.attached c' x hx hnf hgone) fun hcc => ?_
    subst hcc
    change s.sessions[c']? = some x at hx
    rw [hc, Option.some.injEq] at hx
    exact hnf (hx ▸ hfail)
  ok := h.ok
  calls := h.calls
  awaited := fun c' x hx hready hk => h.awaited c' x hx hready (lookup_of_eraseIf hk)

/-- `pop_if` by the task of the session. -/
theorem Inv.remove (h : Inv cfg s a) {c : ℕ} {e : Session} (hc : s.sessions[c]? = some e)
    (ht : e.task = .removing) :
    Inv cfg
      { s.setSession c (e.removed cfg.mode) with
        pending := (s.pending.popIf cfg.hash e.streamId fun c' => c' = c).1 }
      (RotatingMap.eraseIf a e.streamId fun c' => c' = c) := by
  have hself : (s.sessions.set c (e.removed cfg.mode))[c]? = some (e.removed cfg.mode) :=
    List.getElem?_set_self (List.getElem?_eq_some_iff.mp hc).1
  have hne : ∀ {c'}, c' ≠ c → (s.sessions.set c (e.removed cfg.mode))[c']? = s.sessions[c']? :=
    fun hcc => List.getElem?_set_ne (Ne.symm hcc)
  have hgone : (e.removed cfg.mode).task.gone = true := by
    unfold Session.removed
    cases cfg.mode <;> rfl
  have hid : (e.removed cfg.mode).streamId = e.streamId := by
    unfold Session.removed
    cases cfg.mode <;> rfl
  have hcell : (e.removed cfg.mode).cell = e.cell := by
    unfold Session.removed
    cases cfg.mode <;> rfl
  refine ⟨(h.refines.popIf e.streamId _).2, fun k c' hk => ?_, fun c' x hx hnf hg => ?_,
    fun c' x hx => ?_, fun i call hi => ?_, fun c' x hx hready hk => ?_⟩
  · obtain ⟨x, hx, hxid, hxg⟩ := h.bound k c' (lookup_of_eraseIf hk)
    by_cases hcc : c' = c
    · subst hcc
      rw [hc, Option.some.injEq] at hx
      subst hx hxid
      exact absurd hk eraseIf_lookup_self
    · exact ⟨x, (hne hcc).trans hx, hxid, hxg⟩
  · change (s.sessions.set c (e.removed cfg.mode))[c']? = some x at hx
    by_cases hcc : c' = c
    · subst hcc
      rw [hself, Option.some.injEq] at hx
      rw [← hx, hgone] at hg
      cases hg
    · exact eraseIf_lookup_of_ne (h.attached c' x ((hne hcc).symm.trans hx) hnf hg) hcc
  · change (s.sessions.set c (e.removed cfg.mode))[c']? = some x at hx
    by_cases hcc : c' = c
    · subst hcc
      rw [hself, Option.some.injEq] at hx
      exact hx ▸ (h.ok c' e hc).removed ht
    · exact h.ok c' x ((hne hcc).symm.trans hx)
  · intro c' hc'
    obtain ⟨x, hx, hxid, hn⟩ := h.calls i call hi c' hc'
    by_cases hcc : c' = c
    · subst hcc
      rw [hc, Option.some.injEq] at hx
      subst hx
      refine ⟨_, hself, hid.trans hxid, ?_⟩
      have hdr : e.task.drained = true := by rw [ht]; rfl
      cases hpc : call.pc <;> simp only [CallPc.Needs, hpc, hcell] at hn ⊢
      all_goals first | exact hn | exact absurd hn.2 (by simp [hdr])
    · exact ⟨x, (hne hcc).trans hx, hxid, hn⟩
  · change (s.sessions.set c (e.removed cfg.mode))[c']? = some x at hx
    by_cases hcc : c' = c
    · subst hcc
      rw [hself, Option.some.injEq] at hx
      rw [← hx, hid] at hk
      exact absurd hk eraseIf_lookup_self
    · exact h.awaited c' x ((hne hcc).symm.trans hx) hready (lookup_of_eraseIf hk)

theorem Inv.rotate (h : Inv cfg s a) (j : Fin RotatingMap.shardCount)
    (order : IterOrder String ℕ) :
    Inv cfg { s with
      pending := s.pending.setShard j
        ((s.pending.shards j).rotateShard cfg.minCapacity order) } a :=
  ⟨h.refines.rotateShard cfg.minCapacity j order, h.bound, h.attached, h.ok, h.calls, h.awaited⟩

/-- `get_or_create` finds the session of the stream id or begins one. -/
theorem Inv.enter (h : Inv cfg s a) {i : ℕ} {streamId : String}
    (hi : s.calls[i]? = some ⟨streamId, .entering⟩)
    (hs : step cfg s (.enter i true) = some t) : ∃ a', Inv cfg t a' := by
  have hans := @RotatingMap.apply_refines _ _ _ cfg.hash 0 _ _ h.refines
    (.getOrCreate streamId fun _ => s.sessions.length)
  simp only [RotatingMap.apply, RotatingMap.Op.spec] at hans
  simp only [step, hi, if_true] at hs
  generalize s.pending.getOrCreate cfg.hash streamId (fun _ => s.sessions.length) = res at hs hans
  obtain ⟨pending, c, found⟩ := res
  rw [Option.some.injEq] at hs
  subst hs
  have hlt : i < s.calls.length := (List.getElem?_eq_some_iff.mp hi).1
  have hself : ∀ pc, (s.calls.set i ⟨streamId, pc⟩)[i]? = some ⟨streamId, pc⟩ :=
    fun pc => List.getElem?_set_self hlt
  have hne : ∀ {pc j}, j ≠ i → (s.calls.set i ⟨streamId, pc⟩)[j]? = s.calls[j]? :=
    fun hj => List.getElem?_set_ne (Ne.symm hj)
  cases hl : a.lookup streamId with
  | some c' =>
    simp only [hl, RotatingMap.Answer.created.injEq] at hans
    obtain ⟨⟨rfl, rfl⟩, href⟩ := hans
    obtain ⟨e, he, hid, -⟩ := h.bound streamId c hl
    have hinv : Inv cfg { s with pending } a :=
      ⟨href, h.bound, h.attached, h.ok, h.calls, h.awaited⟩
    refine ⟨a, hinv.setCall hi (fun c' hc' => ?_) fun c' hc' => ?_⟩
    · simp only [CallPc.cell, Option.some.injEq] at hc'
      subst hc'
      exact ⟨e, he, hid, trivial⟩
    · cases hc'
  | none =>
    simp only [hl, RotatingMap.Answer.created.injEq] at hans
    obtain ⟨⟨rfl, rfl⟩, href⟩ := hans
    refine ⟨a.insert streamId s.sessions.length, href, fun k c hk => ?_, fun c e he hnf hg => ?_,
      fun c e he => ?_, fun j call hj => ?_, fun c e he hready hk => ?_⟩
    all_goals simp only [Bool.false_eq_true, if_false] at *
    · rw [RotatingMap.lookup_insert_ite] at hk
      split_ifs at hk with hks
      · rw [Option.some.injEq] at hk
        subst hk
        exact ⟨.new streamId, by simp, hks.symm, rfl⟩
      · obtain ⟨e, he, hrest⟩ := h.bound k c hk
        exact ⟨e, by rw [List.getElem?_append_left (List.getElem?_eq_some_iff.mp he).1, he], hrest⟩
    · rw [RotatingMap.lookup_insert_ite]
      rcases lt_or_ge c s.sessions.length with hc | hc
      · rw [List.getElem?_append_left hc] at he
        have hk := h.attached c e he hnf hg
        rw [if_neg, hk]
        intro hid
        rw [hid, hl] at hk
        cases hk
      · rw [List.getElem?_append_right hc, List.getElem?_singleton] at he
        split_ifs at he with hzero
        cases he
        rw [show c = s.sessions.length by omega]
        exact if_pos rfl
    · rcases lt_or_ge c s.sessions.length with hc | hc
      · rw [List.getElem?_append_left hc] at he
        exact h.ok c e he
      · rw [List.getElem?_append_right hc, List.getElem?_singleton] at he
        split_ifs at he
        cases he
        exact ⟨rfl, rfl⟩
    · by_cases hij : j = i
      · subst hij
        rw [hself, Option.some.injEq] at hj
        subst hj
        intro c hc
        simp only [CallPc.cell, Option.some.injEq] at hc
        subst hc
        exact ⟨.new streamId, by simp, rfl, trivial⟩
      · rw [hne hij] at hj
        exact (h.calls j call hj).append _
    · rcases lt_or_ge c s.sessions.length with hc | hc
      · rw [List.getElem?_append_left hc] at he
        have hk' : a.lookup e.streamId = some c := by
          rw [RotatingMap.lookup_insert_ite] at hk
          split_ifs at hk
          · rw [Option.some.injEq] at hk
            omega
          · exact hk
        obtain ⟨j, call, hj, hw⟩ := h.awaited c e he hready hk'
        refine ⟨j, call, ?_, hw⟩
        rw [hne, hj]
        intro hij
        subst hij
        rw [hi, Option.some.injEq] at hj
        subst hj
        cases hw
      · rw [List.getElem?_append_right hc, List.getElem?_singleton] at he
        split_ifs at he with hzero
        have hcl : c = s.sessions.length := by omega
        subst hcl
        exact ⟨i, _, hself _, by simp [CallPc.waitsFor]⟩

/-! ## One step, and any run -/

/-- A call that has its session goes on. -/
theorem Inv.advance (h : Inv cfg s a) {i c : ℕ} {streamId : String} {pc pc' : CallPc}
    (hi : s.calls[i]? = some ⟨streamId, pc⟩) (hc : pc.cell = some c)
    (hc' : ∀ c', pc'.cell = some c' → c' = c)
    (hn : ∀ e, s.sessions[c]? = some e → pc.Needs e → pc'.Needs e)
    (hw : pc.waitsFor c = true → pc'.waitsFor c = true ∨
      ∃ e, s.sessions[c]? = some e ∧ e.cell = .ready) :
    Inv cfg (s.setCall i ⟨streamId, pc⟩ pc') a := by
  refine h.setCall hi (fun c' hcell => ?_) fun c' hwait => ?_
  · obtain rfl := hc' c' hcell
    obtain ⟨e, he, hid, hneeds⟩ := h.calls i _ hi c' hc
    exact ⟨e, he, hid, hn e he hneeds⟩
  · have hcc : c' = c := by
      change pc.waitsFor c' = true at hwait
      cases pc <;>
        simp only [CallPc.waitsFor, CallPc.cell, Option.some.injEq, decide_eq_true_eq,
          Bool.false_eq_true] at hwait hc
      all_goals exact hwait.symm.trans hc
    subst hcc
    refine (hw hwait).imp_right fun hready => ?_
    obtain ⟨e, he, hr⟩ := hready
    exact ⟨e, he, .inl hr⟩

/-- A call returns that no session waits for. -/
theorem Inv.return_ (h : Inv cfg s a) {i : ℕ} {streamId : String} {pc : CallPc}
    (hi : s.calls[i]? = some ⟨streamId, pc⟩) (hw : ∀ c, pc.waitsFor c = false) :
    Inv cfg (s.setCall i ⟨streamId, pc⟩ .returned) a := by
  refine h.setCall hi (fun c hc => ?_) fun c hc => ?_
  · cases hc
  · change pc.waitsFor c = true at hc
    rw [hw c] at hc
    cases hc

theorem Inv.step (h : Inv cfg s a) {action : Action} (hs : step cfg s action = some t) :
    ∃ a', Inv cfg t a' := by
  cases action with
  | consume streamId =>
    cases hs
    refine ⟨a, h.refines, h.bound, h.attached, h.ok, fun i call hi => ?_,
      fun c e he hready hk => ?_⟩
    · rcases lt_or_ge i s.calls.length with hlt | hge
      · rw [List.getElem?_append_left hlt] at hi
        exact h.calls i call hi
      · rw [List.getElem?_append_right hge, List.getElem?_singleton] at hi
        split_ifs at hi
        cases hi
        intro c hc
        cases hc
    · obtain ⟨i, call, hi, hw⟩ := h.awaited c e he hready hk
      exact ⟨i, call, by rw [List.getElem?_append_left (List.getElem?_eq_some_iff.mp hi).1, hi], hw⟩
  | enter i alive =>
    cases alive with
    | true =>
      simp only [StreamSession.step] at hs
      split at hs
      · rename_i streamId hi
        exact h.enter hi (by simp only [StreamSession.step, hi]; exact hs)
      · cases hs
    | false =>
      simp only [StreamSession.step, Bool.false_eq_true, if_false] at hs
      split at hs <;> cases hs
      rename_i streamId hi
      exact ⟨a, h.return_ hi fun _ => rfl⟩
  | get i =>
    simp only [StreamSession.step] at hs
    split at hs
    · rename_i streamId c hi
      split at hs
      · cases hs
      · rename_i e he
        split at hs <;> cases hs
        · rename_i hcell
          have hb := (h.ok c e he).beginInit hcell
          exact ⟨a, h.setSession he hb.1 hb.2 .inl⟩
        · rename_i hcell
          refine ⟨a, h.advance hi rfl (by simp [CallPc.cell]) (fun e' he' _ => ?_) .inl⟩
          rw [he, Option.some.injEq] at he'
          exact he' ▸ hcell
        · rename_i hcell
          refine ⟨a, h.advance hi rfl (by simp [CallPc.cell]) (fun e' he' _ => ?_)
            fun _ => .inr ⟨e, he, hcell⟩⟩
          rw [he, Option.some.injEq] at he'
          exact he' ▸ hcell
    · cases hs
  | abandon i =>
    simp only [StreamSession.step] at hs
    split at hs <;> cases hs
    rename_i streamId c hi
    obtain ⟨e, he, hid, hfail⟩ := h.calls i _ hi c rfl
    have hp := h.popFailed he hfail streamId
    refine ⟨_, hp.setCall hi (fun c' hc' => ?_)
      fun c' hc' => ?_⟩
    · cases hc'
    · simp only [CallPc.waitsFor, decide_eq_true_eq] at hc'
      subst hc'
      refine .inr ⟨e, he, .inr ?_⟩
      rw [hid]
      exact eraseIf_lookup_self
  | reject i =>
    simp only [StreamSession.step] at hs
    split at hs
    · rename_i streamId c hi
      split at hs
      · cases hs
      · split_ifs at hs
        cases hs
        exact ⟨a, h.return_ hi fun _ => rfl⟩
    · cases hs
  | acquire i =>
    simp only [StreamSession.step] at hs
    split at hs <;> cases hs
    rename_i streamId c hi
    exact ⟨a, h.advance hi rfl (by simp [CallPc.cell]) (fun e _ hn => hn)
      (by simp [CallPc.waitsFor])⟩
  | check i =>
    simp only [StreamSession.step] at hs
    split at hs
    · rename_i streamId c hi
      split at hs
      · cases hs
      · rename_i e he
        split_ifs at hs with hfin <;> cases hs
        · exact ⟨a, h.return_ hi fun _ => rfl⟩
        · refine ⟨a, h.advance hi rfl (by simp [CallPc.cell]) (fun e' he' hn => ⟨hn, ?_⟩)
            (by simp [CallPc.waitsFor])⟩
          rw [he, Option.some.injEq] at he'
          subst he'
          cases hdr : e.task.drained with
          | false => rfl
          | true =>
            have hseal := TaskPc.sealed_of_drained hdr
            have hlive := (h.ok c e he).live (by
              intro hidle
              rw [hidle] at hseal
              cases hseal)
            exact absurd (hlive.finished hseal) hfin
    · cases hs
  | consumed i ok =>
    simp only [StreamSession.step] at hs
    split at hs <;> cases hs
    rename_i streamId c hi
    cases ok
    all_goals
      exact ⟨a, h.advance hi rfl (by simp [CallPc.cell]) (fun e _ hn => hn)
        (by simp [CallPc.waitsFor])⟩
  | report i =>
    simp only [StreamSession.step] at hs
    split at hs
    · rename_i streamId c hi
      split at hs
      · cases hs
      · rename_i e he
        cases hs
        have hset : Inv cfg (s.setSession c { e with done := true }) a :=
          h.setSession he (h.ok c e he) (Session.follows_task rfl rfl rfl) .inl
        exact ⟨a, hset.advance hi rfl (by simp [CallPc.cell]) (fun e _ hn => hn)
          (by simp [CallPc.waitsFor])⟩
    · cases hs
  | release i =>
    simp only [StreamSession.step] at hs
    split at hs <;> cases hs
    rename_i streamId c hi
    exact ⟨a, h.return_ hi fun _ => rfl⟩
  | session c event =>
    simp only [StreamSession.step] at hs
    split at hs
    · cases hs
    · rename_i e he
      obtain ⟨e', he', rfl⟩ := Option.map_eq_some_iff.mp hs
      have hf := Session.step_follows (h.ok c e he) he'
      exact ⟨a, h.setSession he ((h.ok c e he).step he') hf.1 fun hd => .inl (hf.2 hd)⟩
  | lock c =>
    simp only [StreamSession.step] at hs
    split at hs
    · cases hs
    · rename_i e he
      split_ifs at hs with hheld
      obtain ⟨e', he', rfl⟩ := Option.map_eq_some_iff.mp hs
      have hl := (h.ok c e he).lock he'
      exact ⟨a, h.setSession he hl.1 hl.2 fun _ => .inr (by simpa using hheld)⟩
  | remove c =>
    simp only [StreamSession.step] at hs
    split at hs
    · cases hs
    · rename_i e he
      split at hs <;> cases hs
      rename_i ht
      exact ⟨_, h.remove he ht⟩
  | rotate j order =>
    cases hs
    exact ⟨a, h.rotate j order⟩

theorem inv_reachable (h : (system cfg).Reachable s) : ∃ a, Inv cfg s a :=
  h.invariant (I := fun s => ∃ a, Inv cfg s a) ⟨∅, inv_init⟩ fun s action t hi hs => by
    obtain ⟨a, ha⟩ := hi
    exact ha.step hs

/-! ### Two runs -/

def sample : Config := ⟨.clientStreaming, fun _ => 0, 1⟩

/-- The call to the peer fails while a second message waits. -/
def failed : List Action :=
  [.consume "a", .consume "a", .enter 0 true, .enter 1 true, .get 0, .session 0 (.begun true),
    .session 0 (.created (.error "down")), .session 0 .rejected, .get 1]

/-- `begin_request` has succeeded, and `end_request` has not returned. -/
def Session.Open (s : Session) : Prop := s.record.ended < s.record.begun

end StreamSession

end ServiceLib
