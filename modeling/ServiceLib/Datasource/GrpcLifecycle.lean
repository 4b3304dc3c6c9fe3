import ServiceLib.Datasource.ResultRouting

/-!
# The life of a gRPC request

Follows `begin_owned`, `consume_owned`, `eof_owned`, `finish_owned` and `RequestLifecycle` in
`src/datasource/grpc/mod.rs`, `CompleteOnDrop` in `src/runtime/common.rs`, and `handle` of the four
shapes of RPC beside the former.

A request that was begun has to be ended once, whatever becomes of its caller. The duty to end it
moves: during `begin` it is in the operation itself, then in a `RequestLifecycle` that the caller
holds or has handed to an operation, and at last in `finish`. An operation whose caller is dropped
goes on in a task of its own, and drops what it was to return; a `RequestLifecycle` that is dropped
spawns `finish`.

**Theorem (`end_request_exactly_once`).** Whichever way the duty goes, `end_request` is called exactly
once for a request that was begun, by `begin` if its id was refused and by `finish` otherwise, and
never for another; and the id is reserved until then.

A future may be dropped wherever it is suspended. Handlers may panic, except in `end_request`. The
lock on a request's context is not modelled: whoever asks for it gets it.
-/

namespace ServiceLib

namespace GrpcLifecycle

open RotatingMap
open ResultRouting (HandlerError HandlerResult)

/-! ## Data -/

inductive Shape
  | noStreaming
  | serverStreaming
  | clientStreaming
  | bidiStreaming

/-- Does the client send a stream of requests? -/
def Shape.streams : Shape → Bool
  | noStreaming | serverStreaming => false
  | clientStreaming | bidiStreaming => true

/-- Is there one response, which `handle` waits for? The other shapes wait for `done`. -/
def Shape.unary : Shape → Bool
  | noStreaming | clientStreaming => true
  | serverStreaming | bidiStreaming => false

structure Config where
  hasResult : Bool
  hash : String → ℕ
  minCapacity : ℕ

inductive BeginPc
  | requesting
  /-- `begin_request` has returned a state; `pending.set` is next. -/
  | registering
  /-- A duplicate: `end_request` runs. -/
  | rejecting

inductive FinishPc
  | closing
  | locking
  /-- `end_request` runs, under the write lock. -/
  | ending
  | removing

/-- Where the request is: in an operation of `handle`, or between two of them. -/
inductive Pc
  | absent
  | beginning (pc : BeginPc)
  /-- `requests.next()` -/
  | next
  | consuming
  | eof
  /-- `receive` or `wait_done` -/
  | waiting
  | finishing (pc : FinishPc) (result : HandlerResult)
  | ended

/-- Ghost: what has happened to a request. `begun` is the outcome of `begin_request`. -/
structure Record where
  begun : Option Bool
  admitted : Bool
  refused : Bool
  /-- Calls of `end_request`, from `begin` and from `finish`, and how many have returned. -/
  beginEnds : ℕ
  finishEnds : ℕ
  returned : ℕ
  removed : Bool
  deriving DecidableEq

def Record.fresh : Record := ⟨none, false, false, 0, 0, 0, false⟩

/-- `readers` are the deliveries that hold the lifetime lock of the entry. -/
structure Call where
  shape : Shape
  pc : Pc
  /-- The caller is gone, and a task of its own runs the rest of the operation. -/
  detached : Bool
  /-- The `RequestLifecycle`, if there is one: does it still have its cleanup? -/
  lifecycle : Option Bool
  /-- The cleanups that were spawned. -/
  cleanups : List (FinishPc × HandlerResult)
  streamId : String
  cancelled : Bool
  closing : Bool
  done : Bool
  readers : ℕ
  writer : Bool
  record : Record

def Call.absent : Call where
  shape := .noStreaming
  pc := .absent
  detached := false
  lifecycle := none
  cleanups := []
  streamId := ""
  cancelled := false
  closing := false
  done := false
  readers := 0
  writer := false
  record := .fresh

structure State where
  pending : RotatingMap String ℕ
  calls : ℕ → Call

def State.init : State := ⟨RotatingMap.new, fun _ => .absent⟩

def State.setCall (s : State) (r : ℕ) (c : Call) : State :=
  { s with calls := Function.update s.calls r c }

/-! ## Dropping -/

namespace Call

/-- `RequestLifecycle::drop`. -/
def dropLifecycle (c : Call) : Call :=
  match c.lifecycle with
  | some true => { c with
      lifecycle := none
      cancelled := true
      closing := true
      cleanups := c.cleanups ++ [(.closing, .error .requestContextCancelled)] }
  | _ => { c with lifecycle := none }

/-- What runs the request is over, and drops what it holds. -/
def leave (c : Call) : Call := { c.dropLifecycle with pc := .ended }

/-- An operation has returned. The caller goes on; without a caller the outcome is dropped. -/
def goOn (c : Call) (pc : Pc) : Call := if c.detached then c.leave else { c with pc := pc }

/-- The caller goes on to `finish`, which takes the cleanup out of the lifecycle. -/
def goFinish (c : Call) (result : HandlerResult) : Call :=
  if c.detached then c.leave
  else { c with lifecycle := none, pc := .finishing .closing result }

/-- The caller's future is dropped while it is suspended: within an operation `CompleteOnDrop` hands
the operation on to a task of its own. -/
def dropCaller (c : Call) : Option Call :=
  match c.pc with
  | .beginning .requesting | .beginning .rejecting | .consuming | .eof | .finishing .locking _
  | .finishing .ending _ =>
    if c.detached then none else some { c with detached := true, cancelled := true }
  | .next | .waiting => some c.leave
  | _ => none

/-- A handler panics. `CompleteOnDrop` is polling then, and does not go on with the operation. -/
def panic (c : Call) : Option Call :=
  match c.pc with
  | .beginning .requesting | .consuming | .eof => some { c.leave with cancelled := true }
  | .next => some c.leave
  | _ => none

end Call

/-! ## The operations -/

/-- `begin_request` has returned, with this stream id or with an error. -/
def beginReturned (c : Call) (outcome : Except HandlerError String) : Option Call :=
  match c.pc with
  | .beginning .requesting =>
    match outcome with
    | .ok streamId => some { c with
        pc := .beginning .registering
        streamId := streamId
        record := { c.record with begun := some true } }
    | .error _ => some { c with pc := .ended, record := { c.record with begun := some false } }
  | _ => none

/-- `pending.set`, and then the lifecycle is made. -/
def register (cfg : Config) (s : State) (r : ℕ) : Option State :=
  let c := s.calls r
  match c.pc with
  | .beginning .registering =>
    match s.pending.set cfg.hash c.streamId r with
    | (pending, .ok ()) =>
      let c := { c with lifecycle := some true, record := { c.record with admitted := true } }
      some (State.setCall { s with pending := pending } r
        (c.goOn (if c.shape.streams then .next else .consuming)))
    | (pending, .error _) =>
      some (State.setCall { s with pending := pending } r { c with
        pc := .beginning .rejecting
        record := { c.record with refused := true, beginEnds := c.record.beginEnds + 1 } })
  | _ => none

def rejected (c : Call) : Option Call :=
  match c.pc with
  | .beginning .rejecting => some { c with
      pc := .ended
      record := { c.record with returned := c.record.returned + 1 } }
  | _ => none

/-- The next item of a stream of requests. -/
def request (c : Call) (item : Option (Except HandlerError Unit)) : Option Call :=
  match c.pc with
  | .next =>
    match item with
    | some (.ok ()) => some { c with pc := .consuming }
    | some (.error error) => some (c.goFinish (.error error))
    | none => some { c with pc := .eof }
  | _ => none

def consumed (c : Call) (result : HandlerResult) : Option Call :=
  match c.pc with
  | .consuming =>
    match result with
    | .ok () => some (c.goOn (if c.shape.streams then .next else .eof))
    | .error error => some (c.goFinish (.error error))
  | _ => none

def eofReturned (cfg : Config) (c : Call) : Option Call :=
  match c.pc with
  | .eof => some (if cfg.hasResult then c.goOn .waiting else c.goFinish (.ok ()))
  | _ => none

/-- The wait for the response or for `done` is over, or was cancelled. -/
def waited (c : Call) (got : Bool) : Option Call :=
  match c.pc with
  | .waiting =>
    if got then
      if c.shape.unary || c.done then some (c.goFinish (.ok ())) else none
    else if c.cancelled then
      some (c.goFinish (.error (if c.shape.unary then
        .text "gRPC unary request context cancelled" else .requestContextCancelled)))
    else none
  | _ => none

/-- One step of `finish`; `outcome` is what `end_request` returns. -/
def finish (cfg : Config) (s : State) (r : ℕ) (outcome : HandlerResult) :
    FinishPc × HandlerResult → Option (State × Option (FinishPc × HandlerResult))
  | (.closing, result) =>
    some (s.setCall r { s.calls r with closing := true }, some (.locking, result))
  | (.locking, result) =>
    let c := s.calls r
    if c.readers = 0 ∧ c.writer = false then
      let result := if result = .error .requestContextCancelled ∧ c.done then .ok () else result
      some (s.setCall r { c with
        writer := true
        record := { c.record with finishEnds := c.record.finishEnds + 1 } }, some (.ending, result))
    else none
  | (.ending, _) =>
    let c := s.calls r
    some (s.setCall r { c with
      record := { c.record with returned := c.record.returned + 1 } }, some (.removing, outcome))
  | (.removing, _) =>
    let c := s.calls r
    let (pending, removed) := s.pending.popIf cfg.hash c.streamId (· == r)
    some (State.setCall { s with pending := pending } r { c with
      writer := false
      record := { c.record with removed := removed.isSome } }, none)

/-! ## The system -/

inductive Action
  | handle (r : ℕ) (shape : Shape)
  | beginReturned (r : ℕ) (outcome : Except HandlerError String)
  | register (r : ℕ)
  | rejected (r : ℕ)
  | request (r : ℕ) (item : Option (Except HandlerError Unit))
  | consumed (r : ℕ) (result : HandlerResult)
  | eofReturned (r : ℕ)
  | waited (r : ℕ) (got : Bool)
  | finish (r : ℕ) (outcome : HandlerResult)
  /-- A step of the `i`-th cleanup. -/
  | cleanup (r i : ℕ) (outcome : HandlerResult)
  | dropCaller (r : ℕ)
  | panic (r : ℕ)
  /-- A delivery takes or releases the lifetime lock. -/
  | readLock (r : ℕ)
  | readUnlock (r : ℕ)
  | done (r : ℕ)
  | cancel (r : ℕ)
  | rotateShard (i : Fin shardCount) (order : IterOrder String ℕ)

def step (cfg : Config) (s : State) : Action → Option State
  | .handle r shape =>
    match (s.calls r).pc with
    | .absent =>
      some (s.setCall r { Call.absent with shape := shape, pc := .beginning .requesting })
    | _ => none
  | .beginReturned r outcome =>
    (GrpcLifecycle.beginReturned (s.calls r) outcome).map (s.setCall r)
  | .register r => GrpcLifecycle.register cfg s r
  | .rejected r => (GrpcLifecycle.rejected (s.calls r)).map (s.setCall r)
  | .request r item => (GrpcLifecycle.request (s.calls r) item).map (s.setCall r)
  | .consumed r result => (GrpcLifecycle.consumed (s.calls r) result).map (s.setCall r)
  | .eofReturned r => (GrpcLifecycle.eofReturned cfg (s.calls r)).map (s.setCall r)
  | .waited r got => (GrpcLifecycle.waited (s.calls r) got).map (s.setCall r)
  | .finish r outcome =>
    match (s.calls r).pc with
    | .finishing pc result => do
      let (s, next) ← GrpcLifecycle.finish cfg s r outcome (pc, result)
      match next with
      | some (pc, result) => some (s.setCall r { s.calls r with pc := .finishing pc result })
      | none => some (s.setCall r { s.calls r with pc := .ended })
    | _ => none
  | .cleanup r i outcome => do
    let task ← (s.calls r).cleanups[i]?
    let (s, next) ← GrpcLifecycle.finish cfg s r outcome task
    match next with
    | some task =>
      some (s.setCall r { s.calls r with cleanups := (s.calls r).cleanups.set i task })
    | none => some (s.setCall r { s.calls r with cleanups := (s.calls r).cleanups.eraseIdx i })
  | .dropCaller r => (s.calls r).dropCaller.map (s.setCall r)
  | .panic r => (s.calls r).panic.map (s.setCall r)
  | .readLock r =>
    let c := s.calls r
    if c.writer then none else some (s.setCall r { c with readers := c.readers + 1 })
  | .readUnlock r =>
    let c := s.calls r
    if c.readers = 0 then none else some (s.setCall r { c with readers := c.readers - 1 })
  | .done r => some (s.setCall r { s.calls r with done := true })
  | .cancel r => some (s.setCall r { s.calls r with cancelled := true })
  | .rotateShard i order =>
    some { s with pending :=
      s.pending.setShard i ((s.pending.shards i).rotateShard cfg.minCapacity order) }

def system (cfg : Config) : System State Action := ⟨.init, step cfg⟩

/-! ## The invariant -/

namespace Record

/-- `begin_request` has failed. -/
def failed : Record := { fresh with begun := some false }

/-- `begin_request` has returned a state. -/
def begun_ : Record := { fresh with begun := some true }

/-- The id was refused, and `end_request` called. -/
def refused_ (returned : ℕ) : Record :=
  { begun_ with refused := true, beginEnds := 1, returned := returned }

def admitted_ : Record := { begun_ with admitted := true }

/-- `finish` is at `pc`. -/
def finishing : FinishPc → Record
  | .closing | .locking => admitted_
  | .ending => { admitted_ with finishEnds := 1 }
  | .removing => { admitted_ with finishEnds := 1, returned := 1 }

def removed_ : Record := { admitted_ with finishEnds := 1, returned := 1, removed := true }

end Record

/-- Does `finish` hold the lock? -/
def FinishPc.locked : FinishPc → Bool
  | closing | locking => false
  | ending | removing => true

/-- What has happened to a request, and who has to end it: its lifecycle, or one of these
cleanups. -/
structure Call.At (c : Call) (record : Record) (lifecycle : Option Bool) (writer : Bool)
    (cleanups : List FinishPc) : Prop where
  record : c.record = record
  lifecycle : c.lifecycle = lifecycle
  writer : c.writer = writer
  cleanups : c.cleanups.map Prod.fst = cleanups

/-- Where a request is, one of them has the duty to end it, until it is done. -/
def CallOk (c : Call) : Prop :=
  match c.pc with
  | .absent | .beginning .requesting => c.At .fresh none false []
  | .beginning .registering => c.At .begun_ none false []
  | .beginning .rejecting => c.At (.refused_ 0) none false []
  | .next | .waiting => c.At .admitted_ (some true) false [] ∧ c.detached = false
  | .consuming | .eof => c.At .admitted_ (some true) false []
  | .finishing pc _ => c.At (.finishing pc) none pc.locked []
  | .ended => (∃ pc, c.At (.finishing pc) none pc.locked [pc]) ∨
      ∃ record, c.At record none false [] ∧
        (record = .fresh ∨ record = .failed ∨ record = .refused_ 1 ∨ record = .removed_)

/-- The ids in `pending` are those of the requests that were admitted and not yet removed. -/
structure Inv (cfg : Config) (s : State) (m : HashMap String ℕ) : Prop where
  refines : Refines cfg.hash s.pending m
  listed : ∀ sid r, m.lookup sid = some r ↔ (s.calls r).record.admitted = true ∧
    (s.calls r).record.removed = false ∧ (s.calls r).streamId = sid
  calls : ∀ r, CallOk (s.calls r)

theorem inv_init (cfg : Config) : Inv cfg .init ∅ where
  refines := refines_new cfg.hash
  listed := fun sid r => by simp [State.init, Call.absent, Record.fresh]
  calls := fun _ => ⟨rfl, rfl, rfl, rfl⟩

variable {cfg : Config} {s t : State} {m : HashMap String ℕ}

/-! ## Where the duty goes -/

theorem Call.At.congr {c c' : Call} {record : Record} {lifecycle : Option Bool} {writer : Bool}
    {cleanups : List FinishPc} (h : c.At record lifecycle writer cleanups)
    (hrec : c'.record = c.record) (hlife : c'.lifecycle = c.lifecycle) (hw : c'.writer = c.writer)
    (hclean : c'.cleanups = c.cleanups) : c'.At record lifecycle writer cleanups :=
  ⟨hrec.trans h.record, hlife.trans h.lifecycle, hw.trans h.writer, by rw [hclean, h.cleanups]⟩

/-- The tokens, the readers and the like do not matter. -/
theorem CallOk.congr {c c' : Call} (h : CallOk c) (hpc : c'.pc = c.pc)
    (hd : c'.detached = c.detached) (hrec : c'.record = c.record)
    (hlife : c'.lifecycle = c.lifecycle) (hw : c'.writer = c.writer)
    (hclean : c'.cleanups = c.cleanups) : CallOk c' := by
  have hat : ∀ {record lifecycle writer cleanups}, c.At record lifecycle writer cleanups →
      c'.At record lifecycle writer cleanups := fun h => h.congr hrec hlife hw hclean
  simp only [CallOk, hpc] at h ⊢
  generalize c.pc = pc at h ⊢
  cases pc with
  | beginning pc => cases pc <;> exact hat h
  | next | waiting => exact ⟨hat h.1, hd.trans h.2⟩
  | absent | consuming | eof | finishing => exact hat h
  | ended =>
    rcases h with ⟨pc, h⟩ | ⟨record, h, hrecord⟩
    · exact Or.inl ⟨pc, hat h⟩
    · exact Or.inr ⟨record, hat h, hrecord⟩

/-- A step of a request that neither enters nor leaves `pending`. -/
structure Keeps (c c' : Call) : Prop where
  ok : CallOk c'
  admitted : c'.record.admitted = c.record.admitted
  removed : c'.record.removed = c.record.removed
  streamId : c'.record.admitted = true → c'.streamId = c.streamId
  begun : c.record.begun = some true → c'.record.begun = some true

theorem Keeps.of_record {c c' : Call} (hok : CallOk c') (hrec : c'.record = c.record)
    (hid : c'.streamId = c.streamId) : Keeps c c' :=
  ⟨hok, by rw [hrec], by rw [hrec], fun _ => hid, by rw [hrec]; exact id⟩

namespace Call

variable {c c' : Call}

@[simp] theorem leave_record (c : Call) : c.leave.record = c.record := by
  unfold leave dropLifecycle
  split <;> rfl

@[simp] theorem leave_streamId (c : Call) : c.leave.streamId = c.streamId := by
  unfold leave dropLifecycle
  split <;> rfl

theorem goOn_record (c : Call) (pc : Pc) : (c.goOn pc).record = c.record := by
  unfold goOn
  split
  · exact leave_record c
  · rfl

theorem goOn_streamId (c : Call) (pc : Pc) : (c.goOn pc).streamId = c.streamId := by
  unfold goOn
  split
  · exact leave_streamId c
  · rfl

/-- The lifecycle is dropped with its cleanup, which is spawned. -/
theorem At.leave (h : c.At .admitted_ (some true) false []) : CallOk c.leave := by
  have hleave : c.leave.At .admitted_ none false [.closing] := by
    simp only [Call.leave, dropLifecycle, h.lifecycle]
    refine ⟨h.record, rfl, h.writer, ?_⟩
    rw [List.map_append, h.cleanups]
    rfl
  exact Or.inl ⟨.closing, hleave⟩

theorem At.keeps_leave (h : c.At .admitted_ (some true) false []) : Keeps c c.leave :=
  .of_record h.leave (leave_record c) (leave_streamId c)

/-- An operation has returned the lifecycle. -/
theorem At.goOn (h : c.At .admitted_ (some true) false []) {pc : Pc}
    (hpc : c.detached = false → CallOk { c with pc := pc }) : Keeps c (c.goOn pc) := by
  unfold Call.goOn
  split_ifs with hd
  · exact h.keeps_leave
  · exact .of_record (hpc (by simpa using hd)) rfl rfl

/-- `finish` gets the duty, or a cleanup does. -/
theorem At.goFinish (h : c.At .admitted_ (some true) false []) (result : HandlerResult) :
    Keeps c (c.goFinish result) := by
  unfold Call.goFinish
  split_ifs with hd
  · exact h.keeps_leave
  · exact .of_record ⟨h.record, rfl, h.writer, h.cleanups⟩ rfl rfl

theorem keeps_dropCaller (h : CallOk c) (hs : c.dropCaller = some c') : Keeps c c' := by
  simp only [dropCaller] at hs
  split at hs
  any_goals
    split_ifs at hs
    cases hs
    rename_i hpc _
    refine .of_record ?_ rfl rfl
    simp only [CallOk, hpc] at h ⊢
    exact ⟨h.record, h.lifecycle, h.writer, h.cleanups⟩
  any_goals
    cases hs
    rename_i hpc
    simp only [CallOk, hpc] at h
    exact h.1.keeps_leave
  cases hs

theorem keeps_panic (h : CallOk c) (hs : c.panic = some c') : Keeps c c' := by
  simp only [panic] at hs
  split at hs
  · rename_i hpc
    cases hs
    simp only [CallOk, hpc] at h
    have hleave : c.leave.At .fresh none false [] := by
      simp only [leave, dropLifecycle, h.lifecycle]
      exact ⟨h.record, rfl, h.writer, h.cleanups⟩
    refine .of_record (Or.inr ⟨.fresh, ?_, Or.inl rfl⟩) (leave_record c) (leave_streamId c)
    exact ⟨hleave.record, hleave.lifecycle, hleave.writer, hleave.cleanups⟩
  any_goals
    rename_i hpc
    cases hs
    simp only [CallOk, hpc] at h
  · exact .of_record (h.leave.congr rfl rfl rfl rfl rfl rfl) (leave_record c) (leave_streamId c)
  · exact .of_record (h.leave.congr rfl rfl rfl rfl rfl rfl) (leave_record c) (leave_streamId c)
  · exact h.1.keeps_leave
  · cases hs

end Call

section Operations

variable {c c' : Call}

theorem keeps_beginReturned (h : CallOk c) {outcome : Except HandlerError String}
    (hs : beginReturned c outcome = some c') : Keeps c c' := by
  simp only [beginReturned] at hs
  split at hs
  · rename_i hpc
    simp only [CallOk, hpc] at h
    split at hs
    all_goals cases hs
    · refine ⟨⟨?_, h.lifecycle, h.writer, h.cleanups⟩, rfl, rfl, ?_, fun _ => rfl⟩
      · rw [h.record]
        rfl
      · intro hadm
        rw [h.record] at hadm
        cases hadm
    · refine ⟨Or.inr ⟨.failed, ⟨?_, h.lifecycle, h.writer, h.cleanups⟩, Or.inr (Or.inl rfl)⟩, rfl, rfl,
        fun _ => rfl, ?_⟩
      · rw [h.record]
        rfl
      · intro hbegun
        rw [h.record] at hbegun
        cases hbegun
  · cases hs

theorem keeps_rejected (h : CallOk c) (hs : rejected c = some c') : Keeps c c' := by
  simp only [rejected] at hs
  split at hs
  · rename_i hpc
    simp only [CallOk, hpc] at h
    cases hs
    refine ⟨Or.inr ⟨.refused_ 1, ⟨?_, h.lifecycle, h.writer, h.cleanups⟩,
      Or.inr (Or.inr (Or.inl rfl))⟩, rfl, rfl, fun _ => rfl, id⟩
    rw [h.record]
    rfl
  · cases hs

theorem keeps_request (h : CallOk c) {item : Option (Except HandlerError Unit)}
    (hs : request c item = some c') : Keeps c c' := by
  simp only [request] at hs
  split at hs
  · rename_i hpc
    simp only [CallOk, hpc] at h
    split at hs
    all_goals cases hs
    · exact .of_record ⟨h.1.record, h.1.lifecycle, h.1.writer, h.1.cleanups⟩ rfl rfl
    · exact h.1.goFinish _
    · exact .of_record ⟨h.1.record, h.1.lifecycle, h.1.writer, h.1.cleanups⟩ rfl rfl
  · cases hs

theorem keeps_consumed (h : CallOk c) {result : HandlerResult} (hs : consumed c result = some c') :
    Keeps c c' := by
  simp only [consumed] at hs
  split at hs
  · rename_i hpc
    simp only [CallOk, hpc] at h
    split at hs
    all_goals cases hs
    · refine h.goOn fun hd => ?_
      cases hst : c.shape.streams with
      | true => exact ⟨⟨h.record, h.lifecycle, h.writer, h.cleanups⟩, hd⟩
      | false => exact ⟨h.record, h.lifecycle, h.writer, h.cleanups⟩
    · exact h.goFinish _
  · cases hs

theorem keeps_eofReturned {cfg : Config} (h : CallOk c) (hs : eofReturned cfg c = some c') :
    Keeps c c' := by
  simp only [eofReturned] at hs
  split at hs
  · rename_i hpc
    simp only [CallOk, hpc] at h
    cases hs
    split_ifs
    · exact h.goOn fun hd => ⟨⟨h.record, h.lifecycle, h.writer, h.cleanups⟩, hd⟩
    · exact h.goFinish _
  · cases hs

theorem keeps_waited (h : CallOk c) {got : Bool} (hs : waited c got = some c') : Keeps c c' := by
  simp only [waited] at hs
  split at hs
  · rename_i hpc
    simp only [CallOk, hpc] at h
    split_ifs at hs
    all_goals
      cases hs
      exact h.1.goFinish _
  · cases hs

end Operations

/-! ## What a step does -/

@[simp] theorem State.setCall_calls_self (s : State) (r : ℕ) (c : Call) :
    (s.setCall r c).calls r = c :=
  Function.update_self ..

theorem State.setCall_calls_ne (s : State) {r r' : ℕ} (hr : r' ≠ r) (c : Call) :
    (s.setCall r c).calls r' = s.calls r' :=
  Function.update_of_ne hr ..

@[simp] theorem State.setCall_setCall (s : State) (r : ℕ) (c c' : Call) :
    (s.setCall r c).setCall r c' = s.setCall r c' := by
  simp only [State.setCall, Function.update_idem]

/-- The step is one of the `finish` of request `r`. -/
def Action.finishes (r : ℕ) : Action → Prop
  | .finish r' _ => r' = r
  | .cleanup r' _ _ => r' = r
  | _ => False

/-- What a step does to `pending`, which holds `m`, and to a request. -/
inductive Moves (cfg : Config) (s : State) (m : HashMap String ℕ) (a : Action) : State → Prop
  | call {r : ℕ} {c : Call} (h : Keeps (s.calls r) c) : Moves cfg s m a (s.setCall r c)
  | admits {r : ℕ} {c : Call} {pending : RotatingMap String ℕ}
      (hbegun : (s.calls r).record = .begun_) (hok : CallOk c) (hrec : c.record = .admitted_)
      (hid : c.streamId = (s.calls r).streamId) (hkey : (s.calls r).streamId ∉ m)
      (href : Refines cfg.hash pending (m.insert (s.calls r).streamId r)) :
    Moves cfg s m a (State.setCall { s with pending := pending } r c)
  | refuses {r : ℕ} {c : Call} {pending : RotatingMap String ℕ} (h : Keeps (s.calls r) c)
      (href : Refines cfg.hash pending m) :
    Moves cfg s m a (State.setCall { s with pending := pending } r c)
  | removes {r : ℕ} {c : Call} {pending : RotatingMap String ℕ} (ha : a.finishes r)
      (hfin : (s.calls r).record = .finishing .removing) (hok : CallOk c)
      (hrec : c.record = .removed_) (href : Refines cfg.hash pending (m.erase (s.calls r).streamId)) :
    Moves cfg s m a (State.setCall { s with pending := pending } r c)
  | rotates {pending : RotatingMap String ℕ} (href : Refines cfg.hash pending m) :
    Moves cfg s m a { s with pending := pending }

/-- A request that has yet to remove its entry finds it there. -/
theorem Inv.lookup_own (h : Inv cfg s m) {r : ℕ}
    (hadm : (s.calls r).record.admitted = true) (hrem : (s.calls r).record.removed = false) :
    m.lookup (s.calls r).streamId = some r :=
  (h.listed _ r).2 ⟨hadm, hrem, rfl⟩

theorem Inv.register (h : Inv cfg s m) {r : ℕ} (hs : register cfg s r = some t) (a : Action) :
    Moves cfg s m a t := by
  have hok := h.calls r
  simp only [GrpcLifecycle.register] at hs
  split at hs
  · rename_i hpc
    simp only [CallOk, hpc] at hok
    obtain ⟨hans, href⟩ := h.refines.set (s.calls r).streamId r
    generalize s.pending.set cfg.hash (s.calls r).streamId r = res at hs hans href
    obtain ⟨pending, result⟩ := res
    by_cases hkey : (s.calls r).streamId ∈ m
    · rw [if_pos hkey] at hans href
      cases hans
      cases hs
      refine .refuses ⟨⟨?_, hok.lifecycle, hok.writer, hok.cleanups⟩, rfl, rfl, fun _ => rfl, id⟩ href
      rw [hok.record]
      rfl
    · rw [if_neg hkey] at hans href
      cases hans
      cases hs
      have hat : Call.At { s.calls r with
          lifecycle := some true
          record := { (s.calls r).record with admitted := true } } .admitted_ (some true) false [] := by
        refine ⟨?_, rfl, hok.writer, hok.cleanups⟩
        rw [hok.record]
        rfl
      refine .admits hok.record (hat.goOn fun hd => ?_).ok ?_ (Call.goOn_streamId _ _) hkey href
      · cases hst : (s.calls r).shape.streams with
        | true => exact ⟨hat.congr rfl rfl rfl rfl, hd⟩
        | false => exact hat.congr rfl rfl rfl rfl
      · exact (Call.goOn_record _ _).trans hat.record
  · cases hs

/-- The call of `r` at `s` after a step of its `finish`, which is at `pc` then. -/
structure Finished (s : State) (r : ℕ) (pc : FinishPc) (c : Call) : Prop where
  still : c.pc = (s.calls r).pc
  record : c.record = .finishing pc
  writer : c.writer = pc.locked
  lifecycle : c.lifecycle = (s.calls r).lifecycle
  cleanups : c.cleanups = (s.calls r).cleanups
  streamId : c.streamId = (s.calls r).streamId

/-- **What `finish` does.** It goes on, or removes its own entry and is over. -/
theorem Inv.finish (h : Inv cfg s m) {r : ℕ} {pc : FinishPc} {result outcome : HandlerResult}
    {next : Option (FinishPc × HandlerResult)} (hrec : (s.calls r).record = .finishing pc)
    (hw : (s.calls r).writer = pc.locked)
    (hs : finish cfg s r outcome (pc, result) = some (t, next)) :
    (∃ pc' result' c, next = some (pc', result') ∧ t = s.setCall r c ∧ Finished s r pc' c) ∨
      ∃ pending, pc = .removing ∧ next = none ∧
        t = State.setCall { s with pending := pending } r
          { s.calls r with writer := false, record := .removed_ } ∧
        Refines cfg.hash pending (m.erase (s.calls r).streamId) := by
  cases pc with
  | closing =>
    cases hs
    exact Or.inl ⟨.locking, result, _, rfl, rfl, rfl, hrec, hw, rfl, rfl, rfl⟩
  | locking =>
    simp only [GrpcLifecycle.finish] at hs
    split_ifs at hs with hlock
    all_goals
      cases hs
      refine Or.inl ⟨.ending, _, _, rfl, rfl, rfl, ?_, rfl, rfl, rfl, rfl⟩
      rw [hrec]
      rfl
  | ending =>
    cases hs
    refine Or.inl ⟨.removing, outcome, _, rfl, rfl, rfl, ?_, hw, rfl, rfl, rfl⟩
    rw [hrec]
    rfl
  | removing =>
    refine Or.inr ?_
    obtain ⟨hans, href⟩ := h.refines.popIf (s.calls r).streamId (· == r)
    have hown : m.lookup (s.calls r).streamId = some r :=
      h.lookup_own (by rw [hrec]; rfl) (by rw [hrec]; rfl)
    simp only [GrpcLifecycle.finish] at hs
    generalize s.pending.popIf cfg.hash (s.calls r).streamId (· == r) = res at hs hans href
    obtain ⟨pending, removed⟩ := res
    simp only [hown, Option.filter_some, beq_self_eq_true, if_true] at hans
    simp only [eraseIf, hown, beq_self_eq_true, if_true] at href
    subst hans
    cases hs
    refine ⟨pending, rfl, rfl, ?_, href⟩
    rw [hrec]
    rfl

/-- Finishing requests are admitted, and their entry is there. -/
theorem Record.finishing_fields (pc pc' : FinishPc) :
    (finishing pc).admitted = (finishing pc').admitted ∧
      (finishing pc).removed = (finishing pc').removed := by
  cases pc <;> cases pc' <;> exact ⟨rfl, rfl⟩

theorem Record.finishing_begun (pc : FinishPc) : (finishing pc).begun = some true := by
  cases pc <;> rfl

/-- A step of the `finish` that the caller runs, or that runs on for it. -/
theorem Inv.finishing (h : Inv cfg s m) {r : ℕ} {outcome : HandlerResult}
    (hs : step cfg s (.finish r outcome) = some t) : Moves cfg s m (.finish r outcome) t := by
  have hok := h.calls r
  simp only [GrpcLifecycle.step] at hs
  split at hs
  · rename_i pc result hpc
    simp only [CallOk, hpc] at hok
    simp only [Option.bind_eq_bind, Option.bind_eq_some_iff] at hs
    obtain ⟨⟨u, next⟩, hf, hs⟩ := hs
    rcases h.finish hok.record hok.writer hf with ⟨pc', result', c, rfl, rfl, hc⟩ |
      ⟨pending, rfl, rfl, rfl, href⟩
    · simp only [State.setCall_calls_self, State.setCall_setCall, Option.some.injEq] at hs
      subst hs
      refine .call ⟨⟨hc.record, hc.lifecycle.trans hok.lifecycle, hc.writer, ?_⟩, ?_, ?_,
        fun _ => hc.streamId, fun _ => ?_⟩
      · rw [← hok.cleanups, ← hc.cleanups]
      · rw [hok.record, hc.record]
        exact (Record.finishing_fields pc' pc).1
      · rw [hok.record, hc.record]
        exact (Record.finishing_fields pc' pc).2
      · rw [hc.record]
        exact Record.finishing_begun pc'
    · simp only [State.setCall_calls_self, State.setCall_setCall, Option.some.injEq] at hs
      subst hs
      refine .removes rfl hok.record (Or.inr ⟨.removed_, ?_, by simp⟩) rfl href
      exact ⟨rfl, hok.lifecycle, rfl, hok.cleanups⟩
  · cases hs

theorem Call.At.no_cleanup {c : Call} {record : Record} {lifecycle : Option Bool} {writer : Bool}
    (h : c.At record lifecycle writer []) (i : ℕ) : c.cleanups[i]? = none := by
  have hnil : c.cleanups = [] := List.map_eq_nil_iff.1 h.cleanups
  rw [hnil]
  rfl

/-- A request that has a cleanup is over, and has no other. -/
theorem CallOk.cleanup {c : Call} (h : CallOk c) {i : ℕ} {pc : FinishPc} {result : HandlerResult}
    (hi : c.cleanups[i]? = some (pc, result)) :
    c.pc = .ended ∧ i = 0 ∧ c.cleanups = [(pc, result)] ∧
      c.At (.finishing pc) none pc.locked [pc] := by
  have hnone : ∀ {record lifecycle writer}, ¬ c.At record lifecycle writer [] := by
    intro record lifecycle writer hat
    rw [hat.no_cleanup i] at hi
    cases hi
  simp only [CallOk] at h
  generalize hpc : c.pc = p at h
  cases p with
  | beginning p => cases p <;> exact absurd h hnone
  | next | waiting => exact absurd h.1 hnone
  | absent | consuming | eof | finishing => exact absurd h hnone
  | ended =>
    rcases h with ⟨pc', h⟩ | ⟨record, h, -⟩
    · obtain ⟨⟨p, res⟩, hone, hp⟩ := List.map_eq_singleton_iff.1 h.cleanups
      rw [hone] at hi
      cases i with
      | zero =>
        cases hi
        cases hp
        exact ⟨rfl, rfl, hone, h⟩
      | succ i => cases hi
    · exact absurd h hnone

/-- A step of a cleanup that was spawned. -/
theorem Inv.cleanup (h : Inv cfg s m) {r i : ℕ} {outcome : HandlerResult}
    (hs : step cfg s (.cleanup r i outcome) = some t) : Moves cfg s m (.cleanup r i outcome) t := by
  simp only [GrpcLifecycle.step, Option.bind_eq_bind, Option.bind_eq_some_iff] at hs
  obtain ⟨⟨pc, result⟩, hi, ⟨u, next⟩, hf, hs⟩ := hs
  obtain ⟨hpc, rfl, hone, hat⟩ := (h.calls r).cleanup hi
  rcases h.finish hat.record hat.writer hf with ⟨pc', result', c, rfl, rfl, hc⟩ |
    ⟨pending, rfl, rfl, rfl, href⟩
  · simp only [State.setCall_calls_self, State.setCall_setCall, Option.some.injEq] at hs
    subst hs
    refine .call ⟨?_, ?_, ?_, fun _ => hc.streamId, fun _ => ?_⟩
    · have hnext : Call.At { c with cleanups := c.cleanups.set 0 (pc', result') } (.finishing pc')
          none pc'.locked [pc'] := by
        refine ⟨hc.record, hc.lifecycle.trans hat.lifecycle, hc.writer, ?_⟩
        rw [hc.cleanups, hone]
        rfl
      have hpc' : c.pc = .ended := hc.still.trans hpc
      simp only [CallOk, hpc']
      exact Or.inl ⟨pc', hnext.congr rfl rfl rfl rfl⟩
    · rw [hat.record, hc.record]
      exact (Record.finishing_fields pc' pc).1
    · rw [hat.record, hc.record]
      exact (Record.finishing_fields pc' pc).2
    · rw [hc.record]
      exact Record.finishing_begun pc'
  · simp only [State.setCall_calls_self, State.setCall_setCall, Option.some.injEq] at hs
    subst hs
    refine .removes rfl hat.record ?_ rfl href
    simp only [CallOk, hpc]
    refine Or.inr ⟨.removed_, ⟨rfl, hat.lifecycle, rfl, ?_⟩, by simp⟩
    rw [hone]
    rfl

theorem Inv.moves (h : Inv cfg s m) {a : Action} (hs : step cfg s a = some t) :
    Moves cfg s m a t := by
  cases a with
  | handle r shape =>
    simp only [GrpcLifecycle.step] at hs
    split at hs
    · rename_i hpc
      have hok := h.calls r
      simp only [CallOk, hpc] at hok
      cases hs
      refine .call ⟨⟨rfl, rfl, rfl, rfl⟩, ?_, ?_, nofun, ?_⟩
      · rw [hok.record]
        rfl
      · rw [hok.record]
        rfl
      · rw [hok.record]
        exact id
    · cases hs
  | register r => exact h.register hs _
  | finish r outcome => exact h.finishing hs
  | cleanup r i outcome => exact h.cleanup hs
  | beginReturned r outcome =>
    obtain ⟨c, hc, rfl⟩ := Option.map_eq_some_iff.1 hs
    exact .call (keeps_beginReturned (h.calls r) hc)
  | rejected r =>
    obtain ⟨c, hc, rfl⟩ := Option.map_eq_some_iff.1 hs
    exact .call (keeps_rejected (h.calls r) hc)
  | request r item =>
    obtain ⟨c, hc, rfl⟩ := Option.map_eq_some_iff.1 hs
    exact .call (keeps_request (h.calls r) hc)
  | consumed r result =>
    obtain ⟨c, hc, rfl⟩ := Option.map_eq_some_iff.1 hs
    exact .call (keeps_consumed (h.calls r) hc)
  | eofReturned r =>
    obtain ⟨c, hc, rfl⟩ := Option.map_eq_some_iff.1 hs
    exact .call (keeps_eofReturned (h.calls r) hc)
  | waited r got =>
    obtain ⟨c, hc, rfl⟩ := Option.map_eq_some_iff.1 hs
    exact .call (keeps_waited (h.calls r) hc)
  | dropCaller r =>
    obtain ⟨c, hc, rfl⟩ := Option.map_eq_some_iff.1 hs
    exact .call (Call.keeps_dropCaller (h.calls r) hc)
  | panic r =>
    obtain ⟨c, hc, rfl⟩ := Option.map_eq_some_iff.1 hs
    exact .call (Call.keeps_panic (h.calls r) hc)
  | readLock r | readUnlock r =>
    simp only [GrpcLifecycle.step] at hs
    split_ifs at hs
    cases hs
    exact .call (.of_record ((h.calls r).congr rfl rfl rfl rfl rfl rfl) rfl rfl)
  | done r | cancel r =>
    cases hs
    exact .call (.of_record ((h.calls r).congr rfl rfl rfl rfl rfl rfl) rfl rfl)
  | rotateShard i order =>
    cases hs
    exact .rotates (h.refines.rotateShard _ _ _)

/-! ## Every step -/

theorem State.setCall_cases {P : Call → Prop} {s : State} {r : ℕ} {c : Call} (hc : P c) {r' : ℕ}
    (hne : r' ≠ r → P (s.calls r')) : P ((s.setCall r c).calls r') := by
  by_cases hr : r' = r
  · rw [hr, State.setCall_calls_self]
    exact hc
  · rw [State.setCall_calls_ne s hr]
    exact hne hr

theorem State.setCall_begun {s : State} {r : ℕ} {c : Call}
    (hc : (s.calls r).record.begun = some true → c.record.begun = some true) (r' : ℕ)
    (hb : (s.calls r').record.begun = some true) :
    ((s.setCall r c).calls r').record.begun = some true := by
  by_cases hr : r' = r
  · subst hr
    rw [State.setCall_calls_self]
    exact hc hb
  · rwa [State.setCall_calls_ne s hr]

theorem Inv.setCall (h : Inv cfg s m) {r : ℕ} {c : Call} (hc : Keeps (s.calls r) c) :
    Inv cfg (s.setCall r c) m := by
  refine ⟨h.refines, fun sid r' => ?_, fun r' => State.setCall_cases hc.ok fun _ => h.calls r'⟩
  rw [h.listed sid r']
  by_cases hr : r' = r
  · subst hr
    rw [State.setCall_calls_self, hc.removed, ← hc.admitted]
    constructor
    · intro ⟨hadm, hrem, hid⟩
      exact ⟨hadm, hrem, (hc.streamId hadm).trans hid⟩
    · intro ⟨hadm, hrem, hid⟩
      exact ⟨hadm, hrem, (hc.streamId hadm).symm.trans hid⟩
  · rw [State.setCall_calls_ne s hr]

/-- A request enters `pending`. -/
theorem Inv.admits (h : Inv cfg s m) {r : ℕ} {c : Call} {pending : RotatingMap String ℕ}
    (hbegun : (s.calls r).record = .begun_) (hok : CallOk c) (hrec : c.record = .admitted_)
    (hid : c.streamId = (s.calls r).streamId) (hkey : (s.calls r).streamId ∉ m)
    (href : Refines cfg.hash pending (m.insert (s.calls r).streamId r)) :
    Inv cfg (State.setCall { s with pending := pending } r c)
      (m.insert (s.calls r).streamId r) := by
  refine ⟨href, fun sid r' => ?_, fun r' => State.setCall_cases hok fun _ => h.calls r'⟩
  rw [lookup_insert_ite]
  by_cases hr : r' = r
  · subst hr
    rw [State.setCall_calls_self, hrec, hid]
    split_ifs with hsid
    · simp [Record.admitted_, Record.begun_, Record.fresh, hsid]
    · rw [h.listed sid r', hbegun]
      simp [Record.begun_, Record.fresh, Ne.symm hsid]
  · rw [State.setCall_calls_ne _ hr, ← h.listed sid r']
    split_ifs with hsid
    · rw [hsid, Finmap.lookup_eq_none.2 hkey]
      simp [Ne.symm hr]
    · rfl

/-- A request leaves `pending`. -/
theorem Inv.removes (h : Inv cfg s m) {r : ℕ} {c : Call} {pending : RotatingMap String ℕ}
    (hfin : (s.calls r).record = .finishing .removing) (hok : CallOk c) (hrec : c.record = .removed_)
    (href : Refines cfg.hash pending (m.erase (s.calls r).streamId)) :
    Inv cfg (State.setCall { s with pending := pending } r c) (m.erase (s.calls r).streamId) := by
  have hown : m.lookup (s.calls r).streamId = some r :=
    h.lookup_own (by rw [hfin]; rfl) (by rw [hfin]; rfl)
  refine ⟨href, fun sid r' => ?_, fun r' => State.setCall_cases hok fun _ => h.calls r'⟩
  rw [lookup_erase_ite]
  by_cases hr : r' = r
  · subst hr
    rw [State.setCall_calls_self, hrec]
    split_ifs with hsid
    · simp [Record.removed_]
    · rw [h.listed sid r']
      simp [Record.removed_, Ne.symm hsid]
  · rw [State.setCall_calls_ne _ hr, ← h.listed sid r']
    split_ifs with hsid
    · rw [hsid, hown]
      simp [Ne.symm hr]
    · rfl

/-- **Entries leave one by one**, each by the `finish` of its own request. -/
theorem Inv.step (h : Inv cfg s m) {a : Action} (hs : GrpcLifecycle.step cfg s a = some t) :
    ∃ m', Inv cfg t m' ∧ (∀ r, (s.calls r).record.begun = some true →
        (t.calls r).record.begun = some true) ∧
      ∀ sid r, m.lookup sid = some r → m'.lookup sid ≠ some r →
        a.finishes r ∧ (s.calls r).record.returned = 1 ∧ m'.lookup sid = none := by
  cases h.moves hs with
  | @call r c hc =>
    exact ⟨m, h.setCall hc, State.setCall_begun hc.begun, fun sid r' hl hn => absurd hl hn⟩
  | @admits r c pending hbegun hok hrec hid hkey href =>
    refine ⟨_, h.admits hbegun hok hrec hid hkey href,
      State.setCall_begun (fun _ => by rw [hrec]; rfl), fun sid r' hl hn => ?_⟩
    rw [lookup_insert_ite] at hn
    split_ifs at hn with hsid
    · rw [hsid, Finmap.lookup_eq_none.2 hkey] at hl
      cases hl
    · exact absurd hl hn
  | @refuses r c pending hc href =>
    have hp : Inv cfg { s with pending := pending } m := ⟨href, h.listed, h.calls⟩
    exact ⟨m, hp.setCall hc, State.setCall_begun hc.begun, fun sid r' hl hn => absurd hl hn⟩
  | @removes r c pending ha hfin hok hrec href =>
    refine ⟨_, h.removes hfin hok hrec href,
      State.setCall_begun (fun _ => by rw [hrec]; rfl), fun sid r' hl hn => ?_⟩
    rw [lookup_erase_ite] at hn ⊢
    split_ifs at hn ⊢ with hsid
    · have hown : m.lookup (s.calls r).streamId = some r :=
        h.lookup_own (by rw [hfin]; rfl) (by rw [hfin]; rfl)
      rw [hsid, hown] at hl
      cases hl
      exact ⟨ha, by rw [hfin]; rfl, rfl⟩
    · exact absurd hl hn
  | rotates href => exact ⟨m, ⟨href, h.listed, h.calls⟩, fun _ => id, fun _ _ hl hn => absurd hl hn⟩

theorem inv_reachable (h : (system cfg).Reachable s) : ∃ m, Inv cfg s m :=
  h.invariant (I := fun s => ∃ m, Inv cfg s m) ⟨∅, inv_init cfg⟩ fun _ _ _ ⟨_, hi⟩ hs =>
    let ⟨m', hi', _⟩ := hi.step hs
    ⟨m', hi'⟩

/-! ## Ended once -/

/-- Nothing is left to do for the request, on any task. -/
def Call.Over (c : Call) : Prop := c.pc = .ended ∧ c.cleanups = []

/-- What has happened to a request at most. -/
theorem CallOk.record {c : Call} (h : CallOk c) :
    c.record = .fresh ∨ c.record = .failed ∨ c.record = .begun_ ∨
      (c.record = .refused_ 0 ∨ c.record = .refused_ 1) ∨ (∃ pc, c.record = .finishing pc) ∨
      c.record = .removed_ := by
  simp only [CallOk] at h
  generalize c.pc = p at h
  cases p with
  | absent => exact Or.inl h.record
  | beginning p =>
    cases p with
    | requesting => exact Or.inl h.record
    | registering => exact Or.inr (Or.inr (Or.inl h.record))
    | rejecting => exact Or.inr (Or.inr (Or.inr (Or.inl (Or.inl h.record))))
  | next | waiting => exact Or.inr (Or.inr (Or.inr (Or.inr (Or.inl ⟨.closing, h.1.record⟩))))
  | consuming | eof => exact Or.inr (Or.inr (Or.inr (Or.inr (Or.inl ⟨.closing, h.record⟩))))
  | finishing pc _ => exact Or.inr (Or.inr (Or.inr (Or.inr (Or.inl ⟨pc, h.record⟩))))
  | ended =>
    rcases h with ⟨pc, h⟩ | ⟨record, h, rfl | rfl | rfl | rfl⟩
    · exact Or.inr (Or.inr (Or.inr (Or.inr (Or.inl ⟨pc, h.record⟩))))
    · exact Or.inl h.record
    · exact Or.inr (Or.inl h.record)
    · exact Or.inr (Or.inr (Or.inr (Or.inl (Or.inr h.record))))
    · exact Or.inr (Or.inr (Or.inr (Or.inr (Or.inr h.record))))

theorem CallOk.over {c : Call} (h : CallOk c) (hover : c.Over) :
    c.record = .fresh ∨ c.record = .failed ∨ c.record = .refused_ 1 ∨ c.record = .removed_ := by
  simp only [CallOk, hover.1] at h
  rcases h with ⟨pc, h⟩ | ⟨record, h, hrecord⟩
  · have hclean := h.cleanups
    rw [hover.2] at hclean
    cases hclean
  · rw [h.record]
    exact hrecord

/-- What a record says about the calls of `end_request`. -/
def Record.Sound (x : Record) : Prop :=
  (x.begun ≠ some true → x.beginEnds = 0 ∧ x.finishEnds = 0) ∧ x.beginEnds + x.finishEnds ≤ 1 ∧
    (0 < x.beginEnds → x.refused = true) ∧
    (0 < x.finishEnds → x.admitted = true ∧ x.refused = false) ∧
    (x.returned = 0 → x.removed = false)

instance (x : Record) : Decidable x.Sound :=
  inferInstanceAs (Decidable (_ ∧ _ ∧ _ ∧ _ ∧ _))

theorem CallOk.sound {c : Call} (h : CallOk c) : c.record.Sound := by
  rcases h.record with hr | hr | hr | (hr | hr) | ⟨pc, hr⟩ | hr
  any_goals
    rw [hr]
    decide
  rw [hr]
  cases pc <;> decide

/-- The calls of `end_request` for a request, and its entry in `pending`. -/
structure EndedOnce (cfg : Config) (s : State) (r : ℕ) : Prop where
  /-- None, unless `begin_request` has returned a state. -/
  none : (s.calls r).record.begun ≠ some true →
    (s.calls r).record.beginEnds = 0 ∧ (s.calls r).record.finishEnds = 0
  atMostOne : (s.calls r).record.beginEnds + (s.calls r).record.finishEnds ≤ 1
  byBegin : 0 < (s.calls r).record.beginEnds → (s.calls r).record.refused = true
  byFinish : 0 < (s.calls r).record.finishEnds →
    (s.calls r).record.admitted = true ∧ (s.calls r).record.refused = false
  /-- One, when nothing is left to do. -/
  one : (s.calls r).Over → (s.calls r).record.begun = some true →
    (s.calls r).record.beginEnds + (s.calls r).record.finishEnds = 1 ∧
      (s.calls r).record.returned = 1
  reserved : (s.calls r).record.admitted = true → (s.calls r).record.returned = 0 →
    s.pending.get cfg.hash (s.calls r).streamId = some r
  gone : (s.calls r).Over → ∀ sid, s.pending.get cfg.hash sid ≠ some r

theorem Inv.endedOnce (h : Inv cfg s m) (r : ℕ) : EndedOnce cfg s r := by
  have hok := h.calls r
  obtain ⟨hnone, hone, hbegin, hfinish, hremoved⟩ := hok.sound
  have hget : ∀ sid, s.pending.get cfg.hash sid = m.lookup sid := h.refines.get
  refine ⟨hnone, hone, hbegin, hfinish, ?_, ?_, ?_⟩
  · intro hover hb
    rcases hok.over hover with hr | hr | hr | hr
    any_goals rw [hr]; exact ⟨rfl, rfl⟩
    all_goals
      rw [hr] at hb
      cases hb
  · intro hadm hret
    rw [hget]
    exact h.lookup_own hadm (hremoved hret)
  · intro hover sid hl
    rw [hget, h.listed sid r] at hl
    obtain ⟨hadm, hrem, -⟩ := hl
    rcases hok.over hover with hr | hr | hr | hr
    · rw [hr] at hadm
      cases hadm
    · rw [hr] at hadm
      cases hadm
    · rw [hr] at hadm
      cases hadm
    · rw [hr] at hrem
      cases hrem

/-! ## The duty can always be done -/

/-- The step is one of request `r`: an operation, a cleanup or a delivery to it ends, or its caller
goes away. -/
def Action.own (r : ℕ) : Action → Prop
  | .register r' | .rejected r' | .request r' _ | .consumed r' _ | .eofReturned r' | .waited r' _
  | .finish r' _ | .cleanup r' _ _ | .dropCaller r' | .readUnlock r' => r' = r
  | _ => False

def FinishPc.left : FinishPc → ℕ
  | closing => 4
  | locking => 3
  | ending => 2
  | removing => 1

/-- How far a request is from its end, if its caller gives up at the next chance. -/
def Pc.left : Pc → ℕ
  | .absent | .beginning .requesting => 8
  | .beginning .registering => 7
  | .beginning .rejecting => 1
  | .eof => 6
  | .next | .consuming | .waiting => 5
  | .finishing pc _ => pc.left
  | .ended => 0

def Call.left (c : Call) : ℕ :=
  c.pc.left + (c.cleanups.map fun x => x.1.left).sum + c.readers

namespace Call

variable {c : Call}

theorem At.left {x : Record} {lifecycle : Option Bool} {writer : Bool}
    (h : c.At x lifecycle writer []) : c.left = c.pc.left + c.readers := by
  have hnil : c.cleanups = [] := List.map_eq_nil_iff.1 h.cleanups
  simp [Call.left, hnil]

/-- The cleanup is all that is left. -/
theorem At.left_leave (h : c.At .admitted_ (some true) false []) :
    c.leave.left = 4 + c.readers := by
  have hnil : c.cleanups = [] := List.map_eq_nil_iff.1 h.cleanups
  simp only [Call.leave, dropLifecycle, h.lifecycle, Call.left, Pc.left, hnil, List.nil_append,
    List.map_cons, List.map_nil, List.sum_cons, List.sum_nil, FinishPc.left]
  omega

theorem At.left_goFinish (h : c.At .admitted_ (some true) false []) (result : HandlerResult) :
    (c.goFinish result).left = 4 + c.readers := by
  have hnil : c.cleanups = [] := List.map_eq_nil_iff.1 h.cleanups
  unfold Call.goFinish
  split_ifs
  · exact h.left_leave
  · simp [Call.left, hnil, Pc.left, FinishPc.left]

theorem At.left_goOn (h : c.At .admitted_ (some true) false []) {pc : Pc} (hpc : pc.left = 5) :
    (c.goOn pc).left ≤ 5 + c.readers := by
  have hnil : c.cleanups = [] := List.map_eq_nil_iff.1 h.cleanups
  unfold Call.goOn
  split_ifs
  · rw [h.left_leave]
    omega
  · simp [Call.left, hnil, hpc]

end Call

/-- A step of `finish` is possible, unless a delivery holds the lock. -/
theorem finish_enabled (cfg : Config) {r : ℕ} {pc : FinishPc} (hw : (s.calls r).writer = pc.locked)
    (result : HandlerResult) (hread : (s.calls r).readers = 0) :
    ∃ u next, finish cfg s r (.ok ()) (pc, result) = some (u, next) ∧
      (u.calls r).pc = (s.calls r).pc ∧ (u.calls r).cleanups = (s.calls r).cleanups ∧
      (u.calls r).readers = 0 ∧ ∀ x, next = some x → x.1.left < pc.left := by
  cases pc with
  | locking =>
    refine ⟨_, _, if_pos ⟨hread, hw⟩, by simp, by simp, by simpa using hread, fun x hx => ?_⟩
    cases hx
    exact (by decide : 2 < 3)
  | closing =>
    refine ⟨_, _, rfl, by simp, by simp, by simpa using hread, fun x hx => ?_⟩
    cases hx
    exact (by decide : 3 < 4)
  | ending =>
    refine ⟨_, _, rfl, by simp, by simp, by simpa using hread, fun x hx => ?_⟩
    cases hx
    exact (by decide : 1 < 2)
  | removing =>
    refine ⟨_, _, rfl, by simp, by simp, by simpa using hread, fun x hx => ?_⟩
    cases hx

theorem FinishPc.left_pos (pc : FinishPc) : 0 < pc.left := by
  cases pc <;> decide

/-- Whatever the request does next, it can come closer to its end. -/
def Closer (cfg : Config) (s : State) (r : ℕ) : Prop :=
  ∃ a t, a.own r ∧ step cfg s a = some t ∧ (t.calls r).left < (s.calls r).left

theorem Closer.of_call {r : ℕ} {a : Action} {x : Option Call} {c : Call} (ha : a.own r)
    (hs : step cfg s a = x.map (s.setCall r)) (hx : x = some c)
    (hlt : c.left < (s.calls r).left) : Closer cfg s r := by
  refine ⟨a, s.setCall r c, ha, by rw [hs, hx]; rfl, ?_⟩
  rw [State.setCall_calls_self]
  exact hlt

/-- A delivery that holds the lock lets go of it. -/
theorem closer_of_readers {r : ℕ} (hread : (s.calls r).readers ≠ 0) : Closer cfg s r := by
  refine ⟨.readUnlock r, _, rfl, if_neg hread, ?_⟩
  simp only [State.setCall_calls_self, Call.left]
  omega

theorem Inv.closer_registering (h : Inv cfg s m) {r : ℕ}
    (hpc : (s.calls r).pc = .beginning .registering) : Closer cfg s r := by
  have hok := h.calls r
  simp only [CallOk, hpc] at hok
  have hleft := hok.left
  rw [hpc] at hleft
  have hat : Call.At { s.calls r with
      lifecycle := some true
      record := { (s.calls r).record with admitted := true } } .admitted_ (some true) false [] := by
    refine ⟨?_, rfl, hok.writer, hok.cleanups⟩
    rw [hok.record]
    rfl
  cases hset : s.pending.set cfg.hash (s.calls r).streamId r with
  | mk pending result =>
    cases result with
    | ok _ =>
      refine ⟨.register r, _, rfl, by
        simp only [GrpcLifecycle.step, GrpcLifecycle.register, hpc, hset]
        rfl, ?_⟩
      rw [State.setCall_calls_self, hleft]
      refine lt_of_le_of_lt (hat.left_goOn ?_) ?_
      · cases (s.calls r).shape.streams <;> rfl
      · simp only [Pc.left]
        omega
    | error e =>
      refine ⟨.register r, _, rfl, by
        simp only [GrpcLifecycle.step, GrpcLifecycle.register, hpc, hset]
        rfl, ?_⟩
      have hnil : (s.calls r).cleanups = [] := List.map_eq_nil_iff.1 hok.cleanups
      rw [State.setCall_calls_self, hleft]
      simp only [Call.left, hnil, Pc.left, List.map_nil, List.sum_nil]
      omega

/-- The `finish` of the caller goes on. -/
theorem Inv.closer_finishing (h : Inv cfg s m) {r : ℕ} {pc : FinishPc} {result : HandlerResult}
    (hpc : (s.calls r).pc = .finishing pc result) : Closer cfg s r := by
  have hok := h.calls r
  simp only [CallOk, hpc] at hok
  by_cases hread : (s.calls r).readers = 0
  · obtain ⟨u, next, hf, hupc, hclean, huread, hlt⟩ :=
      finish_enabled cfg hok.writer result hread
    have hnil : (s.calls r).cleanups = [] := List.map_eq_nil_iff.1 hok.cleanups
    cases next with
    | none =>
      refine ⟨.finish r (.ok ()), _, rfl, by simp only [GrpcLifecycle.step, hpc, hf]; rfl, ?_⟩
      rw [State.setCall_calls_self, hok.left, hpc]
      simp only [Call.left, hclean, hnil, huread, hread, Pc.left, List.map_nil, List.sum_nil]
      exact pc.left_pos
    | some x =>
      refine ⟨.finish r (.ok ()), _, rfl, by simp only [GrpcLifecycle.step, hpc, hf]; rfl, ?_⟩
      rw [State.setCall_calls_self, hok.left, hpc]
      simp only [Call.left, hclean, hnil, huread, hread, Pc.left, List.map_nil, List.sum_nil,
        Nat.add_zero]
      exact hlt x rfl
  · exact closer_of_readers hread

/-- The cleanup goes on. -/
theorem Inv.closer_cleanup (h : Inv cfg s m) {r : ℕ} {pc : FinishPc} {result : HandlerResult}
    (hclean : (s.calls r).cleanups = [(pc, result)]) : Closer cfg s r := by
  have hi : (s.calls r).cleanups[0]? = some (pc, result) := by rw [hclean]; rfl
  obtain ⟨hpc, -, -, hat⟩ := (h.calls r).cleanup hi
  by_cases hread : (s.calls r).readers = 0
  · obtain ⟨u, next, hf, hupc, huclean, huread, hlt⟩ :=
      finish_enabled cfg hat.writer result hread
    have hleft : (s.calls r).left = pc.left := by
      simp [Call.left, hpc, Pc.left, hclean, hread]
    cases next with
    | none =>
      refine ⟨.cleanup r 0 (.ok ()), _, rfl, by
        simp only [GrpcLifecycle.step, hi, Option.bind_eq_bind, Option.bind_some, hf]
        rfl, ?_⟩
      rw [State.setCall_calls_self, hleft]
      simp only [Call.left, hupc, hpc, huclean, hclean, huread, Pc.left, List.eraseIdx_zero,
        List.tail_cons, List.map_nil, List.sum_nil]
      exact pc.left_pos
    | some x =>
      refine ⟨.cleanup r 0 (.ok ()), _, rfl, by
        simp only [GrpcLifecycle.step, hi, Option.bind_eq_bind, Option.bind_some, hf]
        rfl, ?_⟩
      rw [State.setCall_calls_self, hleft]
      simp only [Call.left, hupc, hpc, huclean, hclean, huread, Pc.left, List.set_cons_zero,
        List.map_cons, List.map_nil, List.sum_cons, List.sum_nil, Nat.zero_add, Nat.add_zero]
      exact hlt x rfl
  · exact closer_of_readers hread

theorem Inv.closer (h : Inv cfg s m) {r : ℕ} (hb : (s.calls r).record.begun = some true)
    (hover : ¬ (s.calls r).Over) : Closer cfg s r := by
  have hok := h.calls r
  cases hpc : (s.calls r).pc with
  | absent =>
    simp only [CallOk, hpc] at hok
    rw [hok.record] at hb
    cases hb
  | beginning pc =>
    cases pc with
    | requesting =>
      simp only [CallOk, hpc] at hok
      rw [hok.record] at hb
      cases hb
    | registering => exact h.closer_registering hpc
    | rejecting =>
      simp only [CallOk, hpc] at hok
      refine .of_call (a := .rejected r) rfl rfl (by simp only [rejected, hpc]; rfl) ?_
      rw [hok.left, hpc]
      have hnil : (s.calls r).cleanups = [] := List.map_eq_nil_iff.1 hok.cleanups
      simp only [Call.left, Pc.left, hnil, List.map_nil, List.sum_nil]
      omega
  | next =>
    simp only [CallOk, hpc] at hok
    refine .of_call (a := .request r (some (.error .requestContextCancelled))) rfl rfl
      (by simp only [request, hpc]; rfl) ?_
    rw [hok.1.left_goFinish, hok.1.left, hpc]
    simp only [Pc.left]
    omega
  | consuming =>
    simp only [CallOk, hpc] at hok
    refine .of_call (a := .consumed r (.error .requestContextCancelled)) rfl rfl
      (by simp only [consumed, hpc]; rfl) ?_
    rw [hok.left_goFinish, hok.left, hpc]
    simp only [Pc.left]
    omega
  | eof =>
    simp only [CallOk, hpc] at hok
    refine .of_call (a := .eofReturned r) rfl rfl (by simp only [eofReturned, hpc]; rfl) ?_
    rw [hok.left, hpc]
    split_ifs
    · refine lt_of_le_of_lt (hok.left_goOn rfl) ?_
      simp only [Pc.left]
      omega
    · rw [hok.left_goFinish]
      simp only [Pc.left]
      omega
  | waiting =>
    simp only [CallOk, hpc] at hok
    refine .of_call (a := .dropCaller r) rfl rfl (by simp only [Call.dropCaller, hpc]; rfl) ?_
    rw [hok.1.left_leave, hok.1.left, hpc]
    simp only [Pc.left]
    omega
  | finishing pc result => exact h.closer_finishing hpc
  | ended =>
    have hne : (s.calls r).cleanups ≠ [] := fun hnil => hover ⟨hpc, hnil⟩
    obtain ⟨⟨pc, result⟩, hmem⟩ := List.exists_mem_of_ne_nil _ hne
    obtain ⟨i, hi⟩ := List.mem_iff_getElem?.1 hmem
    obtain ⟨-, -, hclean, -⟩ := hok.cleanup hi
    exact h.closer_cleanup hclean

/-- The request comes to its end by steps of its own. The induction is on what is left to do. -/
theorem Inv.ends (h : Inv cfg s m) {r : ℕ} (hb : (s.calls r).record.begun = some true) :
    ∃ as t m', (∀ a ∈ as, Action.own r a) ∧ (system cfg).run s as = some t ∧ Inv cfg t m' ∧
      (t.calls r).record.begun = some true ∧ (t.calls r).Over := by
  induction hn : (s.calls r).left using Nat.strong_induction_on generalizing s m with
  | _ n ih =>
    by_cases hover : (s.calls r).Over
    · exact ⟨[], s, m, by simp, rfl, h, hb, hover⟩
    · obtain ⟨a, u, ha, hs, hlt⟩ := h.closer hb hover
      obtain ⟨m₁, hu, hbu, -⟩ := h.step hs
      obtain ⟨as, t, m', has, hrun, ht, hbt, hend⟩ := ih _ (hn ▸ hlt) hu (hbu r hb) rfl
      have hone : (system cfg).run s [a] = some u := System.run_singleton hs
      refine ⟨a :: as, t, m', ?_, System.run_trans hone hrun, ht, hbt, hend⟩
      intro b hmem
      rcases List.mem_cons.1 hmem with rfl | hmem
      · exact ha
      · exact has b hmem

/-- **A request is ended exactly once.** In every reachable state the calls of `end_request` are as
they have to be; an entry of `pending` is removed only by the `finish` of its own request, after its
`end_request` has returned; and every request that was begun can be brought to its end, where
`end_request` has been called once and has returned, by steps of its own. -/
theorem end_request_exactly_once (cfg : Config) {s : State} (h : (system cfg).Reachable s) :
    (∀ r, EndedOnce cfg s r) ∧
      (∀ a t sid r, step cfg s a = some t → s.pending.get cfg.hash sid = some r →
        t.pending.get cfg.hash sid ≠ some r →
        a.finishes r ∧ (s.calls r).record.returned = 1 ∧ t.pending.get cfg.hash sid = none) ∧
      ∀ r, (s.calls r).record.begun = some true →
        ∃ as t, (∀ a ∈ as, Action.own r a) ∧ (system cfg).run s as = some t ∧ (t.calls r).Over ∧
          (t.calls r).record.beginEnds + (t.calls r).record.finishEnds = 1 ∧
          (t.calls r).record.returned = 1 := by
  obtain ⟨m, hinv⟩ := inv_reachable h
  refine ⟨hinv.endedOnce, fun a t sid r hs hl hn => ?_, fun r hb => ?_⟩
  · obtain ⟨m', ht, -, hgone⟩ := hinv.step hs
    have hget : ∀ k, s.pending.get cfg.hash k = m.lookup k := hinv.refines.get
    have hget' : ∀ k, t.pending.get cfg.hash k = m'.lookup k := ht.refines.get
    rw [hget] at hl
    rw [hget'] at hn ⊢
    exact hgone sid r hl hn
  · obtain ⟨as, t, m', has, hrun, ht, hbt, hover⟩ := hinv.ends hb
    obtain ⟨hone, hret⟩ := (ht.endedOnce r).one hover hbt
    exact ⟨as, t, has, hrun, hover, hone, hret⟩

/-- The caller goes away while its message is being consumed. -/
def droppedRun : List Action :=
  [.handle 0 .noStreaming, .beginReturned 0 (.ok "a"), .register 0, .dropCaller 0,
    .consumed 0 (.ok ())]

def droppedConfig : Config := ⟨true, String.length, 0⟩

theorem droppedRun_runs :
    ((system droppedConfig).run (system droppedConfig).init droppedRun).isSome := by
  decide +kernel

/-- A cleanup has the duty then, and does it. -/
theorem dropped_request_is_ended : ∃ s, (system droppedConfig).Reachable s ∧
    (s.calls 0).pc = .ended ∧ (s.calls 0).record.finishEnds = 0 ∧
    s.pending.get droppedConfig.hash "a" = some 0 ∧
    ∃ as t, (system droppedConfig).run s as = some t ∧ (t.calls 0).Over ∧
      (t.calls 0).record.beginEnds + (t.calls 0).record.finishEnds = 1 := by
  have hreach := System.reachable_get (S := system droppedConfig) droppedRun_runs
  obtain ⟨hended, -, hends⟩ := end_request_exactly_once droppedConfig hreach
  obtain ⟨as, t, -, hrun, hover, hone, -⟩ := hends 0 (by decide +kernel)
  exact ⟨_, hreach, rfl, by decide +kernel,
    (hended 0).reserved (by decide +kernel) (by decide +kernel), as, t, hrun, hover, hone⟩

end GrpcLifecycle

end ServiceLib
