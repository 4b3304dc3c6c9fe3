import ServiceLib.Store.RotatingMap
import ServiceLib.Transition

/-!
# Result routing in the data sources

Follows the request and result paths of `src/datasource/http/axum.rs`,
`src/datasource/kafka/rdkafka.rs`, `src/datasource/localsource/custom.rs` and
`src/datasource/grpc/mod.rs`. A request publishes its entry in `pending` under its stream id;
`consume_result` looks the entry up, takes the entry's `lifetime` for reading, checks that the
entry is still the published one, and runs the callback the request registered for the message.
The request ends under the write side of the same lock.

The first three sources unpublish the entry and then take the write lock. The gRPC source keeps
the id reserved during `end_request` and marks the entry as `closing` instead. Both are one
system here, with a `Source` to choose the branch; every step between two suspension points or
shared accesses is one action, and a future may be dropped wherever it is suspended.

`callback_within_request` is the result: while a callback runs, the `end_request` of the request
it was registered for has not begun.
-/

namespace ServiceLib

namespace ResultRouting

open RotatingMap

/-- The four sources that route results. -/
inductive Source
  | http
  | kafka
  | custom
  | grpc
  deriving DecidableEq

/-- The error of a `HandlerResult`; gRPC tells a cancelled wait by its type. -/
inductive HandlerError
  | text (message : String)
  | runtime (error : RuntimeError)
  | requestContextCancelled
  deriving DecidableEq

abbrev HandlerResult := Except HandlerError Unit

/-- The error of a request whose context was cancelled while it waited for `done`. -/
def waitError : Source → HandlerError
  | .http => .text "HTTP request context cancelled before ResultContext::done"
  | .kafka => .text "Kafka message context cancelled"
  | .custom => .text "request context cancelled before ResultContext::done"
  | .grpc => .requestContextCancelled

/-- The error of a request that `pending.set` has refused. -/
def duplicateError : Source → RuntimeError → HandlerError
  | .grpc, _ => .text "duplicate gRPC stream ID"
  | _, error => .runtime error

structure Config where
  source : Source
  /-- `input_stream.result_stream().is_some()` -/
  hasResult : Bool
  hash : String → ℕ
  minCapacity : ℕ

/-- Only the gRPC source admits requests to `pending` when there is no result stream. -/
def Config.publishes (cfg : Config) : Bool := cfg.source = .grpc ∨ cfg.hasResult

/-- `result_wait_cancelled`, which gRPC's `finish` recovers from the error's type. -/
def Config.waitCancelled (cfg : Config) (flag : Bool) (result : HandlerResult) : Bool :=
  if cfg.source = .grpc then result = .error .requestContextCancelled else flag

/-- Where a request is. `ending` and `rejected` are inside `end_request`. -/
inductive RequestPc
  | absent
  /-- `begin_request` has returned; `pending.set` is next. -/
  | begun
  /-- A duplicate: `end_request` runs without any guard. -/
  | rejected (result : HandlerResult)
  | consuming
  | waiting
  /-- Leaving: `pending.pop` is next, or `closing.cancel` in gRPC's `finish`. -/
  | completing (waitCancelled : Bool) (result : HandlerResult)
  /-- Waiting for the write lock of the entry that was taken out of `pending`. -/
  | locking (removed : Option ℕ) (waitCancelled : Bool) (result : HandlerResult)
  | ending (guard : Option ℕ) (result : HandlerResult)
  /-- `end_request` has returned. -/
  | closed (guard : Option ℕ)
  | finished
  | dropped
  deriving DecidableEq

/-- The shared entry of a request. The lifetime lock is its set of readers and whether it is
write-locked; waiters are not queued, so any order of grants is possible. Ghost: whether the entry
was ever in `pending`, and whether `end_request` has begun. -/
structure Request where
  streamId : String
  callbacks : Option (HashMap String ℕ)
  done : Bool
  cancelled : Bool
  closing : Bool
  readers : Finset ℕ
  writer : Bool
  pc : RequestPc
  published : Bool
  endBegan : Bool

def Request.absent : Request where
  streamId := ""
  callbacks := none
  done := false
  cancelled := false
  closing := false
  readers := ∅
  writer := false
  pc := .absent
  published := false
  endBegan := false

/-- The entry a source creates after `begin_request`. -/
def Request.new (streamId : String) : Request :=
  { Request.absent with streamId := streamId, callbacks := some ∅, pc := .begun }

/-- Where a `consume_result` call is; `request` is the entry it looked up. -/
inductive DeliveryPc
  | absent
  | started
  | locking (request : ℕ)
  /-- gRPC only: the read guard is held, `closing` is about to be checked. -/
  | admitted (request : ℕ)
  /-- The read guard is held, `pending` is about to be checked. -/
  | matching (request : ℕ)
  | identifying (request : ℕ)
  | calling (request : ℕ) (message : String) (callback : ℕ)
  | returned
  deriving DecidableEq

/-- A `consume_result` call. Ghost: the entry it looked up, and whether that entry was still
published at the moment the read guard was obtained. -/
structure Delivery where
  streamId : Option String
  pc : DeliveryPc
  looked : Option ℕ
  publishedAtLock : Bool

def Delivery.absent : Delivery := ⟨none, .absent, none, false⟩

/-- `owner` is ghost: the request a callback was registered for. -/
structure State where
  pending : RotatingMap String ℕ
  requests : ℕ → Request
  deliveries : ℕ → Delivery
  owner : ℕ → Option ℕ

namespace State

def init : State where
  pending := RotatingMap.new
  requests := fun _ => .absent
  deliveries := fun _ => .absent
  owner := fun _ => none

def setRequest (s : State) (r : ℕ) (q : Request) : State :=
  { s with requests := Function.update s.requests r q }

def setDelivery (s : State) (d : ℕ) (q : Delivery) : State :=
  { s with deliveries := Function.update s.deliveries d q }

/-- Move a request to another program point. -/
def goto (s : State) (r : ℕ) (pc : RequestPc) : State :=
  s.setRequest r { s.requests r with pc := pc }

/-- Release the write lock of an entry. -/
def unlock (s : State) : Option ℕ → State
  | some r => s.setRequest r { s.requests r with writer := false }
  | none => s

/-- A delivery leaves, releasing the read guard if it holds one. -/
def leave (s : State) (d : ℕ) (r : ℕ) : State :=
  (s.setRequest r { s.requests r with readers := (s.requests r).readers.erase d }).setDelivery d
    { s.deliveries d with pc := .returned }

end State

open State

/-! ## The steps -/

inductive Action
  /-- `begin_request` has returned a context with this stream id. -/
  | begin (r : ℕ) (streamId : String)
  | register (r : ℕ)
  | endRejected (r : ℕ)
  /-- `ResultContext::set_result_callback`, by whoever holds the context. -/
  | setResultCallback (r : ℕ) (message : String) (callback : ℕ)
  /-- `ResultContext::done`. -/
  | done (r : ℕ)
  | cancel (r : ℕ)
  /-- `consume_message` has returned. -/
  | consumed (r : ℕ) (result : HandlerResult)
  /-- The wait for `done` is over; `byDone` tells which branch of the `select!` won. -/
  | waited (r : ℕ) (byDone : Bool)
  /-- gRPC, unary: the wait for the response is over. -/
  | received (r : ℕ) (value : Bool)
  /-- gRPC: the lifecycle guard was dropped, and its cleanup is spawned. -/
  | abandon (r : ℕ)
  /-- Unpublish the entry, or mark it as closing. -/
  | complete (r : ℕ)
  | lockWrite (r : ℕ)
  /-- `end_request` has returned. -/
  | endReturned (r : ℕ)
  /-- Close the callbacks, unpublish the gRPC entry, release the guard. -/
  | finish (r : ℕ)
  /-- The request's future is dropped. -/
  | drop (r : ℕ)
  | deliver (d : ℕ) (streamId : Option String)
  | lookup (d : ℕ)
  | lockRead (d : ℕ)
  /-- gRPC: the `closing` branch of the `select!`. -/
  | late (d : ℕ)
  | checkClosing (d : ℕ)
  | checkPending (d : ℕ)
  /-- `get_message_id` has returned. -/
  | identified (d : ℕ) (message : String)
  | called (d : ℕ) (remove : Bool)
  | dropDelivery (d : ℕ)
  | rotateShard (i : Fin shardCount) (order : IterOrder String ℕ)

/-- A request's own steps. -/
def stepRequest (cfg : Config) (s : State) (r : ℕ) : Action → Option State
  | .begin _ streamId =>
    match (s.requests r).pc with
    | .absent => some (s.setRequest r (.new streamId))
    | _ => none
  | .register _ =>
    match (s.requests r).pc with
    | .begun =>
      if cfg.publishes then
        match s.pending.set cfg.hash (s.requests r).streamId r with
        | (pending, .ok ()) =>
          some ({ s with pending := pending }.setRequest r { s.requests r with
            pc := .consuming
            published := true })
        | (pending, .error error) =>
          some ({ s with pending := pending }.setRequest r { s.requests r with
            pc := .rejected (.error (duplicateError cfg.source error))
            endBegan := true })
      else some (s.goto r .consuming)
    | _ => none
  | .endRejected _ =>
    match (s.requests r).pc with
    | .rejected _ =>
      some (s.setRequest r { s.requests r with
        pc := .finished
        callbacks := if cfg.source = .http then none else (s.requests r).callbacks })
    | _ => none
  | .consumed _ result =>
    match (s.requests r).pc with
    | .consuming =>
      if result = .ok () ∧ cfg.hasResult then some (s.goto r .waiting)
      else some (s.goto r (.completing (cfg.waitCancelled false result) result))
    | _ => none
  | .waited _ byDone =>
    match (s.requests r).pc with
    | .waiting =>
      if byDone then
        if (s.requests r).done then some (s.goto r (.completing false (.ok ()))) else none
      else if (s.requests r).cancelled then
        some (s.goto r (.completing true (.error (waitError cfg.source))))
      else none
    | _ => none
  | .received _ value =>
    match cfg.source, (s.requests r).pc with
    | .grpc, .waiting =>
      if value then some (s.goto r (.completing false (.ok ())))
      else if (s.requests r).cancelled then
        some (s.goto r (.completing false (.error (.text "gRPC unary request context cancelled"))))
      else none
    | _, _ => none
  | .abandon _ =>
    let left := s.setRequest r { s.requests r with
      pc := .completing true (.error .requestContextCancelled)
      closing := true
      cancelled := true }
    match cfg.source, (s.requests r).pc with
    | .grpc, .consuming => some left
    | .grpc, .waiting => some left
    | _, _ => none
  | .complete _ =>
    match (s.requests r).pc with
    | .completing waitCancelled result =>
      if cfg.source = .grpc then
        some (s.setRequest r { s.requests r with
          closing := true
          pc := .locking (some r) waitCancelled result })
      else if cfg.hasResult then
        let (pending, removed) := s.pending.pop cfg.hash (s.requests r).streamId
        some ({ s with pending := pending }.goto r (.locking removed waitCancelled result))
      else some (s.goto r (.locking none waitCancelled result))
    | _ => none
  | .lockWrite _ =>
    match (s.requests r).pc with
    | .locking removed waitCancelled result =>
      let result := if waitCancelled && (s.requests r).done then .ok () else result
      match removed with
      | none => some (s.setRequest r { s.requests r with
          pc := .ending none result
          endBegan := true })
      | some e =>
        if (s.requests e).readers = ∅ ∧ (s.requests e).writer = false then
          let s := s.setRequest e { s.requests e with writer := true }
          some (s.setRequest r { s.requests r with
            pc := .ending (some e) result
            endBegan := true })
        else none
    | _ => none
  | .endReturned _ =>
    match (s.requests r).pc with
    | .ending guard _ => some (s.goto r (.closed guard))
    | _ => none
  | .finish _ =>
    match (s.requests r).pc with
    | .closed guard =>
      let callbacks :=
        if cfg.source = .http ∨ cfg.source = .grpc then none else (s.requests r).callbacks
      let s := s.setRequest r { s.requests r with pc := .finished, callbacks := callbacks }
      let s := if cfg.source = .grpc then
          { s with pending := (s.pending.popIf cfg.hash (s.requests r).streamId (· == r)).1 }
        else s
      some (s.unlock guard)
    | _ => none
  | .drop _ =>
    let s' := s.setRequest r { s.requests r with
      pc := .dropped
      cancelled := (s.requests r).cancelled || cfg.source = .http }
    -- The gRPC operations run to their end when their owner is dropped.
    if cfg.source = .grpc then none
    else match (s.requests r).pc with
      | .rejected _ | .consuming | .waiting | .locking _ _ _ => some s'
      | .ending guard _ => some (s'.unlock guard)
      | _ => none
  | .setResultCallback _ message callback =>
    if (s.requests r).pc ≠ .absent ∧ s.owner callback = none then
      some ({ s with owner := Function.update s.owner callback (some r) }.setRequest r
        { s.requests r with
          callbacks := (s.requests r).callbacks.map fun m : HashMap String ℕ =>
            m.insert message callback })
    else none
  | .done _ => some (s.setRequest r { s.requests r with done := true })
  | .cancel _ => some (s.setRequest r { s.requests r with cancelled := true })
  | _ => none

/-- A delivery's own steps. -/
def stepDelivery (cfg : Config) (s : State) (d : ℕ) : Action → Option State
  | .deliver _ streamId =>
    match (s.deliveries d).pc with
    | .absent => some (s.setDelivery d { Delivery.absent with streamId := streamId, pc := .started })
    | _ => none
  | .lookup _ =>
    match (s.deliveries d).pc with
    | .started =>
      match (s.deliveries d).streamId.bind (s.pending.get cfg.hash) with
      | none => some (s.setDelivery d { s.deliveries d with pc := .returned })
      | some r => some (s.setDelivery d { s.deliveries d with pc := .locking r, looked := some r })
    | _ => none
  | .lockRead _ =>
    match (s.deliveries d).pc with
    | .locking r =>
      -- gRPC polls `closing` before the lock.
      if (cfg.source = .grpc → (s.requests r).closing = false) ∧ (s.requests r).writer = false then
        let s' := s.setRequest r
          { s.requests r with readers := insert d (s.requests r).readers }
        some (s'.setDelivery d { s.deliveries d with
          pc := if cfg.source = .grpc then .admitted r else .matching r
          publishedAtLock :=
            ((s.deliveries d).streamId.bind (s.pending.get cfg.hash)) = some r })
      else none
    | _ => none
  | .late _ =>
    match (s.deliveries d).pc with
    | .locking r =>
      if cfg.source = .grpc ∧ (s.requests r).closing then
        some (s.setDelivery d { s.deliveries d with pc := .returned })
      else none
    | _ => none
  | .checkClosing _ =>
    match (s.deliveries d).pc with
    | .admitted r =>
      if (s.requests r).closing ∨ cfg.hasResult = false then some (s.leave d r)
      else some (s.setDelivery d { s.deliveries d with pc := .matching r })
    | _ => none
  | .checkPending _ =>
    match (s.deliveries d).pc with
    | .matching r =>
      if (s.deliveries d).streamId.bind (s.pending.get cfg.hash) = some r then
        some (s.setDelivery d { s.deliveries d with pc := .identifying r })
      else some (s.leave d r)
    | _ => none
  | .identified _ message =>
    match (s.deliveries d).pc with
    | .identifying r =>
      match (s.requests r).callbacks.bind fun callbacks => callbacks.lookup message with
      | some callback =>
        some (s.setDelivery d { s.deliveries d with pc := .calling r message callback })
      | none => some (s.leave d r)
    | _ => none
  | .called _ remove =>
    match (s.deliveries d).pc with
    | .calling r message _ =>
      let callbacks := (s.requests r).callbacks.map fun m : HashMap String ℕ =>
        if remove then m.erase message else m
      some ((s.setRequest r { s.requests r with callbacks := callbacks }).leave d r)
    | _ => none
  | .dropDelivery _ =>
    match (s.deliveries d).pc with
    | .locking _ => some (s.setDelivery d { s.deliveries d with pc := .returned })
    | .identifying r | .calling r _ _ => some (s.leave d r)
    | _ => none
  | _ => none

def step (cfg : Config) (s : State) (a : Action) : Option State :=
  match a with
  | .begin r _ | .register r | .endRejected r | .setResultCallback r _ _ | .done r | .cancel r
  | .consumed r _ | .waited r _ | .received r _ | .abandon r | .complete r | .lockWrite r | .endReturned r
  | .finish r | .drop r => stepRequest cfg s r a
  | .deliver d _ | .lookup d | .lockRead d | .late d | .checkClosing d | .checkPending d
  | .identified d _ | .called d _ | .dropDelivery d => stepDelivery cfg s d a
  | .rotateShard i order =>
    some { s with pending :=
      s.pending.setShard i ((s.pending.shards i).rotateShard cfg.minCapacity order) }

/-- A source under every interleaving. -/
def routing (cfg : Config) : System State Action := ⟨State.init, step cfg⟩

/-! ## The invariant -/

/-- The program points at which a request's entry is in `pending`. -/
def RequestPc.Published (source : Source) : RequestPc → Prop
  | .consuming | .waiting | .completing _ _ => True
  | .locking _ _ _ | .ending _ _ | .closed _ => source = .grpc
  | _ => False

/-- The entry whose write lock a request waits for or holds. -/
def RequestPc.guard : RequestPc → Option (Option ℕ)
  | .locking removed _ _ => some removed
  | .ending guard _ => some guard
  | .closed guard => some guard
  | _ => none

/-- The program points inside `end_request`. -/
def RequestPc.inEnd : RequestPc → Bool
  | .rejected _ | .ending _ _ => true
  | _ => false

/-- A request with id `r`, while `pending` holds `a`. -/
structure RequestOk (cfg : Config) (a : HashMap String ℕ) (owner : ℕ → Option ℕ) (r : ℕ)
    (q : Request) : Prop where
  listed : cfg.publishes → q.pc.Published cfg.source → a.lookup q.streamId = some r
  /-- A request only ever ends under its own lock. -/
  guard : ∀ g, q.pc.guard = some g → g = if cfg.publishes then some r else none
  publishes : q.published → cfg.publishes
  quiet : q.published = false → q.readers = ∅
  fresh : q.published → q.pc ≠ .absent ∧ q.pc ≠ .begun ∧ ∀ result, q.pc ≠ .rejected result
  begun : q.pc = .begun → q.endBegan = false
  began : q.pc.inEnd → q.endBegan
  closing : cfg.source = .grpc → q.published → q.endBegan ∨ q.pc.guard.isSome → q.closing
  callbacks : ∀ m message c, q.callbacks = some m → m.lookup message = some c → owner c = some r

/-- What holds of an entry that is in `pending`. -/
structure Listed (cfg : Config) (sid : String) (q : Request) : Prop where
  streamId : q.streamId = sid
  published : q.published
  /-- Outside gRPC an entry leaves before its request ends. -/
  early : cfg.source ≠ .grpc → q.endBegan = false ∧ q.pc.guard = none

/-- A delivery that holds the read guard of the entry it looked up. -/
structure Holds (a : HashMap String ℕ) (requests : ℕ → Request) (d r : ℕ) (q : Delivery) :
    Prop where
  looked : q.looked = some r
  published : (requests r).published
  reading : d ∈ (requests r).readers
  gone : q.publishedAtLock = false → q.streamId.bind (a.lookup ·) ≠ some r

/-- A delivery that has passed the check. -/
structure Passed (requests : ℕ → Request) (d r : ℕ) (q : Delivery) : Prop where
  looked : q.looked = some r
  published : (requests r).published
  reading : d ∈ (requests r).readers
  publishedAtLock : q.publishedAtLock
  open_ : (requests r).endBegan = false

def DeliveryOk (cfg : Config) (a : HashMap String ℕ) (requests : ℕ → Request)
    (owner : ℕ → Option ℕ) (d : ℕ) (q : Delivery) : Prop :=
  match q.pc with
  | .locking r => q.looked = some r ∧ (requests r).published
  | .admitted r => Holds a requests d r q
  | .matching r => Holds a requests d r q ∧ (cfg.source = .grpc → (requests r).endBegan = false)
  | .identifying r => Passed requests d r q
  | .calling r _ c => Passed requests d r q ∧ owner c = some r
  | _ => True

structure Routed (cfg : Config) (s : State) (a : HashMap String ℕ) : Prop where
  refines : Refines cfg.hash s.pending a
  listed : ∀ sid r, a.lookup sid = some r → Listed cfg sid (s.requests r)
  requests : ∀ r, RequestOk cfg a s.owner r (s.requests r)
  deliveries : ∀ d, DeliveryOk cfg a s.requests s.owner d (s.deliveries d)

theorem routed_init (cfg : Config) : Routed cfg State.init ∅ where
  refines := refines_new cfg.hash
  listed := fun sid r h => by simp at h
  requests := fun r => by
    constructor <;>
      simp [State.init, Request.absent, RequestPc.Published, RequestPc.guard, RequestPc.inEnd]
  deliveries := fun d => trivial

/-! ### What a step may do to the others -/

/-- How the entries may change without disturbing a delivery: an entry that was published stays
so, a reader keeps its guard, and a request does not begin to end while it has readers. -/
structure Undisturbed (d : ℕ) (a a' : HashMap String ℕ) (requests requests' : ℕ → Request) :
    Prop where
  published : ∀ r, (requests r).published → (requests' r).published
  reading : ∀ r, d ∈ (requests r).readers → d ∈ (requests' r).readers
  open_ : ∀ r, (requests r).published → d ∈ (requests r).readers →
    (requests r).endBegan = false → (requests' r).endBegan = false
  lookup : ∀ sid r, (requests r).published → a'.lookup sid = some r → a.lookup sid = some r

theorem Holds.frame {d r : ℕ} {a a' : HashMap String ℕ} {requests requests' : ℕ → Request}
    {q : Delivery} (h : Holds a requests d r q) (hu : Undisturbed d a a' requests requests') :
    Holds a' requests' d r q where
  looked := h.looked
  published := hu.published r h.published
  reading := hu.reading r h.reading
  gone := by
    intro hp hb
    obtain ⟨sid, hsid, hl⟩ := Option.bind_eq_some_iff.1 hb
    refine h.gone hp ?_
    rw [hsid, Option.bind_some]
    exact hu.lookup sid r h.published hl

theorem Passed.frame {d r : ℕ} {a a' : HashMap String ℕ} {requests requests' : ℕ → Request}
    {q : Delivery} (h : Passed requests d r q) (hu : Undisturbed d a a' requests requests') :
    Passed requests' d r q where
  looked := h.looked
  published := hu.published r h.published
  reading := hu.reading r h.reading
  publishedAtLock := h.publishedAtLock
  open_ := hu.open_ r h.published h.reading h.open_

theorem DeliveryOk.frame {cfg : Config} {a a' : HashMap String ℕ}
    {requests requests' : ℕ → Request} {owner owner' : ℕ → Option ℕ} {d : ℕ} {q : Delivery}
    (h : DeliveryOk cfg a requests owner d q) (hu : Undisturbed d a a' requests requests')
    (ho : ∀ c r, owner c = some r → owner' c = some r) :
    DeliveryOk cfg a' requests' owner' d q := by
  unfold DeliveryOk at *
  cases hpc : q.pc with
  | locking r =>
    rw [hpc] at h
    exact ⟨h.1, hu.published r h.2⟩
  | admitted r =>
    rw [hpc] at h
    exact h.frame hu
  | matching r =>
    rw [hpc] at h
    exact ⟨h.1.frame hu, fun hg => hu.open_ r h.1.published h.1.reading (h.2 hg)⟩
  | identifying r =>
    rw [hpc] at h
    exact h.frame hu
  | calling r message c =>
    rw [hpc] at h
    exact ⟨h.1.frame hu, ho c r h.2⟩
  | absent | started | returned => trivial

theorem RequestOk.frame {cfg : Config} {a a' : HashMap String ℕ} {owner owner' : ℕ → Option ℕ}
    {r : ℕ} {q : Request} (h : RequestOk cfg a owner r q)
    (ha : a.lookup q.streamId = some r → a'.lookup q.streamId = some r)
    (ho : ∀ c r, owner c = some r → owner' c = some r) : RequestOk cfg a' owner' r q :=
  { h with
    listed := fun hp hq => ha (h.listed hp hq)
    callbacks := fun m message c hm hl => ho c r (h.callbacks m message c hm hl) }

/-- Changing one request `r`, and `pending` where it speaks about `r`. The new entry keeps what
others rely on: its readers, and not to begin to end while it has any. -/
theorem Routed.change {cfg : Config} {s t : State} {a a' : HashMap String ℕ} (h : Routed cfg s a)
    {r : ℕ} {q : Request} (hreq : t.requests = Function.update s.requests r q)
    (hdel : t.deliveries = s.deliveries) (href : Refines cfg.hash t.pending a')
    (ha : ∀ sid r', r' ≠ r → (a'.lookup sid = some r' ↔ a.lookup sid = some r'))
    (har : ∀ sid, a'.lookup sid = some r → Listed cfg sid q)
    (hlook : (s.requests r).published → ∀ sid, a'.lookup sid = some r → a.lookup sid = some r)
    (ho : ∀ c r, s.owner c = some r → t.owner c = some r)
    (hok : RequestOk cfg a' t.owner r q)
    (hpub : (s.requests r).published → q.published)
    (hread : (s.requests r).readers ⊆ q.readers)
    (hopen : (s.requests r).published → (s.requests r).readers ≠ ∅ →
      (s.requests r).endBegan = false → q.endBegan = false) :
    Routed cfg t a' := by
  have hself : t.requests r = q := by rw [hreq, Function.update_self]
  have hother : ∀ r', r' ≠ r → t.requests r' = s.requests r' := by
    intro r' hc
    rw [hreq, Function.update_of_ne hc]
  refine ⟨href, fun sid r' hr' => ?_, fun r' => ?_, fun d => ?_⟩
  · by_cases hc : r' = r
    · subst hc
      rw [hself]
      exact har sid hr'
    · rw [hother r' hc]
      exact h.listed sid r' ((ha sid r' hc).1 hr')
  · by_cases hc : r' = r
    · subst hc
      rw [hself]
      exact hok
    · rw [hother r' hc]
      exact (h.requests r').frame (ha _ r' hc).2 ho
  · rw [hdel]
    refine (h.deliveries d).frame ⟨fun r' => ?_, fun r' => ?_, fun r' => ?_, fun sid r' => ?_⟩ ho
    · by_cases hc : r' = r
      · subst hc
        rw [hself]
        exact hpub
      · rw [hother r' hc]
        exact id
    · by_cases hc : r' = r
      · subst hc
        rw [hself]
        exact fun hd => hread hd
      · rw [hother r' hc]
        exact id
    · by_cases hc : r' = r
      · subst hc
        rw [hself]
        exact fun hp hd he => hopen hp (Finset.ne_empty_of_mem hd) he
      · rw [hother r' hc]
        exact fun _ _ he => he
    · by_cases hc : r' = r
      · subst hc
        exact fun hp hl => hlook hp sid hl
      · exact fun _ => (ha sid r' hc).1

/-- Replacing one request by one that looks the same to everybody else. -/
theorem Routed.setRequest {cfg : Config} {s : State} {a : HashMap String ℕ} (h : Routed cfg s a)
    (r : ℕ) (q : Request) (hok : RequestOk cfg a s.owner r q)
    (hl : ∀ sid, Listed cfg sid (s.requests r) → Listed cfg sid q)
    (hpub : (s.requests r).published → q.published)
    (hread : (s.requests r).readers ⊆ q.readers)
    (hopen : (s.requests r).published → (s.requests r).readers ≠ ∅ →
      (s.requests r).endBegan = false → q.endBegan = false) :
    Routed cfg (s.setRequest r q) a :=
  h.change rfl rfl h.refines (fun _ _ _ => Iff.rfl)
    (fun sid hsid => hl sid (h.listed sid r hsid)) (fun _ _ => id) (fun _ _ => id) hok hpub hread
    hopen

/-- A step of a delivery that touches nothing else. -/
theorem Routed.setDelivery {cfg : Config} {s : State} {a : HashMap String ℕ} (h : Routed cfg s a)
    (d : ℕ) (q : Delivery) (hok : DeliveryOk cfg a s.requests s.owner d q) :
    Routed cfg (s.setDelivery d q) a where
  refines := h.refines
  listed := h.listed
  requests := h.requests
  deliveries := by
    intro d'
    simp only [State.setDelivery, Function.update_apply]
    split_ifs with hc
    · subst hc
      exact hok
    · exact h.deliveries d'

/-- A request that moves to a program point from which its entry looks the same. -/
theorem Routed.goto {cfg : Config} {s : State} {a : HashMap String ℕ} (h : Routed cfg s a)
    (r : ℕ) (pc : RequestPc) (hold : (s.requests r).pc.Published cfg.source ∨
      (cfg.publishes = false ∧ (s.requests r).published = false))
    (hguard : pc.guard = none) (hpc : pc ≠ .absent ∧ pc ≠ .begun ∧ ∀ result, pc ≠ .rejected result) :
    Routed cfg (s.goto r pc) a := by
  have hr := h.requests r
  refine h.setRequest r _ ⟨?_, ?_, hr.publishes, hr.quiet, fun _ => hpc,
    fun hb => absurd hb hpc.2.1, fun hin => ?_, ?_, hr.callbacks⟩ ?_ id (Finset.Subset.refl _)
    (fun _ _ he => he)
  · intro hp _
    rcases hold with hold | hold
    · exact hr.listed hp hold
    · rw [hold.1] at hp
      cases hp
  · intro g hg
    rw [hguard] at hg
    cases hg
  · cases pc with
    | rejected result => exact absurd rfl (hpc.2.2 result)
    | ending guard result => cases hguard
    | _ => cases hin
  · intro hs hp he
    refine hr.closing hs hp (he.imp_right fun hg => ?_)
    rw [hguard] at hg
    cases hg
  · exact fun sid hsid => ⟨hsid.streamId, hsid.published, fun hs => ⟨(hsid.early hs).1, hguard⟩⟩

/-- Registering a callback, setting a flag: everything the invariant speaks about stays. -/
theorem Routed.touch {cfg : Config} {s : State} {a : HashMap String ℕ} (h : Routed cfg s a)
    (r : ℕ) (q : Request) (hid : q.streamId = (s.requests r).streamId)
    (hpc : q.pc = (s.requests r).pc) (hpub : q.published = (s.requests r).published)
    (hend : q.endBegan = (s.requests r).endBegan)
    (hread : q.readers = (s.requests r).readers)
    (hclosing : (s.requests r).closing = true → q.closing = true)
    (hcb : ∀ m message c, q.callbacks = some m → m.lookup message = some c →
      s.owner c = some r) : Routed cfg (s.setRequest r q) a := by
  have hr := h.requests r
  refine h.setRequest r q ?_ ?_ (by rw [hpub]; exact id) (by rw [hread])
    (by rw [hend]; exact fun _ _ => id)
  · refine ⟨?_, ?_, ?_, ?_, ?_, ?_, ?_, ?_, hcb⟩
    · rw [hpc, hid]; exact hr.listed
    · rw [hpc]; exact hr.guard
    · rw [hpub]; exact hr.publishes
    · rw [hpub, hread]; exact hr.quiet
    · rw [hpub, hpc]; exact hr.fresh
    · rw [hpc, hend]; exact hr.begun
    · rw [hpc, hend]; exact hr.began
    · rw [hpub, hend, hpc]; exact fun hs hp he => hclosing (hr.closing hs hp he)
  · intro sid hsid
    exact ⟨hid.trans hsid.streamId, hpub.trans hsid.published, fun hs => by
      rw [hend, hpc]; exact hsid.early hs⟩

/-- A delivery leaves. -/
theorem Routed.leave {cfg : Config} {s : State} {a : HashMap String ℕ} (h : Routed cfg s a)
    (d r : ℕ) : Routed cfg (s.leave d r) a where
  refines := h.refines
  listed := by
    intro sid r' hr'
    have hl := h.listed sid r' hr'
    simp only [State.leave, State.setRequest, State.setDelivery, Function.update_apply]
    split_ifs with hc
    · subst hc
      exact ⟨hl.streamId, hl.published, hl.early⟩
    · exact hl
  requests := by
    intro r'
    have hr := h.requests r'
    simp only [State.leave, State.setRequest, State.setDelivery, Function.update_apply]
    split_ifs with hc
    · subst hc
      exact { hr with quiet := fun hp => by simp [hr.quiet hp] }
    · exact hr
  deliveries := by
    intro d'
    simp only [State.leave, State.setRequest, State.setDelivery]
    by_cases hd : d' = d
    · subst hd
      rw [Function.update_self]
      trivial
    · rw [Function.update_of_ne hd]
      refine (h.deliveries d').frame
        ⟨fun r' => ?_, fun r' => ?_, fun r' => ?_, fun _ _ _ hl => hl⟩ fun _ _ ho => ho
      all_goals
        rw [Function.update_apply]
        split_ifs with hc
      · subst hc; exact id
      · exact id
      · subst hc; exact fun hm => Finset.mem_erase.2 ⟨hd, hm⟩
      · exact id
      · subst hc; exact fun _ _ => id
      · exact fun _ _ => id

theorem Routed.unlock {cfg : Config} {s : State} {a : HashMap String ℕ} (h : Routed cfg s a)
    (g : Option ℕ) : Routed cfg (s.unlock g) a := by
  cases g with
  | none => exact h
  | some r => exact h.touch r _ rfl rfl rfl rfl rfl id (h.requests r).callbacks

/-! ### A request's steps -/

theorem publishes_of_grpc {cfg : Config} (h : cfg.source = .grpc) : cfg.publishes = true := by
  simp [Config.publishes, h]

theorem Routed.begin {cfg : Config} {s : State} {a : HashMap String ℕ} (h : Routed cfg s a)
    {r : ℕ} (hpc : (s.requests r).pc = .absent) (sid : String) :
    Routed cfg (s.setRequest r (.new sid)) a := by
  have hr := h.requests r
  have hp : (s.requests r).published = false := by
    by_contra hp
    exact (hr.fresh (by simpa using hp)).1 hpc
  refine h.setRequest r _ ?_ ?_ (by simp [hp]) ?_ (by simp [hp])
  · constructor
    case callbacks =>
      intro m message c hm hl
      obtain rfl : ∅ = m := by simpa [Request.new] using hm
      simp at hl
    all_goals
      simp [Request.new, Request.absent, RequestPc.Published, RequestPc.guard, RequestPc.inEnd]
  · intro sid hl
    exact absurd hl.published (by simp [hp])
  · rw [hr.quiet hp]
    exact Finset.empty_subset _

/-- `pending.set` has succeeded. -/
theorem Routed.publish {cfg : Config} {s : State} {a : HashMap String ℕ} (h : Routed cfg s a)
    {r : ℕ} {pending : RotatingMap String ℕ} (hpc : (s.requests r).pc = .begun)
    (hpubs : cfg.publishes = true) (hkey : (s.requests r).streamId ∉ a)
    (href : Refines cfg.hash pending (a.insert (s.requests r).streamId r)) :
    Routed cfg ({ s with pending := pending }.setRequest r { s.requests r with
      pc := .consuming
      published := true }) (a.insert (s.requests r).streamId r) := by
  have hr := h.requests r
  have hp : (s.requests r).published = false := by
    by_contra hp
    exact (hr.fresh (by simpa using hp)).2.1 hpc
  refine h.change rfl rfl href ?_ ?_ (by simp [hp]) (fun _ _ => id) ?_ (by simp)
    (Finset.Subset.refl _) (fun _ _ => id)
  · intro sid r' hc
    rw [lookup_insert_ite]
    split_ifs with hsid
    · subst hsid
      simp [Ne.symm hc, Finmap.lookup_eq_none.2 hkey]
    · rfl
  · intro sid hl
    rw [lookup_insert_ite] at hl
    split_ifs at hl with hsid
    · exact ⟨hsid.symm, rfl, fun _ => ⟨hr.begun hpc, rfl⟩⟩
    · have := (h.listed sid r hl).published
      rw [hp] at this
      cases this
  · refine ⟨fun _ _ => Finmap.lookup_insert _, (fun g hg => nomatch hg), fun _ => hpubs,
      (fun hc => nomatch hc), fun _ => ⟨by simp, by simp, by simp⟩, by simp, (fun hin => nomatch hin), ?_,
      hr.callbacks⟩
    simp [hr.begun hpc, RequestPc.guard]

/-- `pending.set` has refused the request. -/
theorem Routed.reject {cfg : Config} {s : State} {a : HashMap String ℕ} (h : Routed cfg s a)
    {r : ℕ} {pending : RotatingMap String ℕ} (hpc : (s.requests r).pc = .begun)
    (href : Refines cfg.hash pending a) (result : HandlerResult) :
    Routed cfg ({ s with pending := pending }.setRequest r { s.requests r with
      pc := .rejected result
      endBegan := true }) a := by
  have hr := h.requests r
  have hp : (s.requests r).published = false := by
    by_contra hp
    exact (hr.fresh (by simpa using hp)).2.1 hpc
  have hs : Routed cfg { s with pending := pending } a := ⟨href, h.listed, h.requests, h.deliveries⟩
  refine hs.setRequest r _ ?_ ?_ (by simp [hp]) (Finset.Subset.refl _) (by simp [hp])
  · constructor
    case callbacks => exact hr.callbacks
    case quiet => exact hr.quiet
    all_goals simp [hp, RequestPc.Published, RequestPc.guard]
  · intro sid hl
    exact absurd hl.published (by simp [hp])

theorem Routed.register {cfg : Config} {s t : State} {a : HashMap String ℕ} (h : Routed cfg s a)
    {r : ℕ} (hs : stepRequest cfg s r (.register r) = some t) : ∃ a', Routed cfg t a' := by
  have hr := h.requests r
  cases hpc : (s.requests r).pc <;> simp only [stepRequest, hpc, reduceCtorEq] at hs
  by_cases hpubs : cfg.publishes = true
  · rw [if_pos hpubs] at hs
    obtain ⟨hans, href⟩ := h.refines.set (s.requests r).streamId r
    generalize s.pending.set cfg.hash (s.requests r).streamId r = res at hs hans href
    obtain ⟨pending, result⟩ := res
    by_cases hkey : (s.requests r).streamId ∈ a
    · rw [if_pos hkey] at hans href
      cases hans
      cases hs
      exact ⟨a, h.reject hpc href _⟩
    · rw [if_neg hkey] at hans href
      cases hans
      cases hs
      exact ⟨_, h.publish hpc hpubs hkey href⟩
  · rw [if_neg hpubs] at hs
    cases hs
    have hp : (s.requests r).published = false := by
      by_contra hp
      exact hpubs (hr.publishes (by simpa using hp))
    exact ⟨a, h.goto r .consuming (Or.inr ⟨by simpa using hpubs, hp⟩) rfl
      ⟨by simp, by simp, by simp⟩⟩

/-- The entry leaves `pending`, and its request waits for the write lock. -/
theorem Routed.unpublish {cfg : Config} {s : State} {a : HashMap String ℕ} (h : Routed cfg s a)
    {r : ℕ} {pending : RotatingMap String ℕ} {waitCancelled w : Bool} {result : HandlerResult}
    (hpc : (s.requests r).pc = .completing w result) (hsource : cfg.source ≠ .grpc)
    (hpubs : cfg.publishes = true)
    (href : Refines cfg.hash pending (a.erase (s.requests r).streamId)) :
    Routed cfg ({ s with pending := pending }.goto r (.locking (some r) waitCancelled result))
      (a.erase (s.requests r).streamId) := by
  have hr := h.requests r
  have hl : a.lookup (s.requests r).streamId = some r := hr.listed hpubs (by rw [hpc]; trivial)
  have hgone : ∀ sid, (a.erase (s.requests r).streamId).lookup sid ≠ some r := by
    intro sid hsid
    rw [lookup_erase_ite] at hsid
    split_ifs at hsid with hc
    exact hc (h.listed sid r hsid).streamId.symm
  refine h.change rfl rfl href ?_ (fun sid hsid => absurd hsid (hgone sid))
    (fun _ sid hsid => absurd hsid (hgone sid)) (fun _ _ => id) ?_ id (Finset.Subset.refl _)
    (fun _ _ => id)
  · intro sid r' hc
    rw [lookup_erase_ite]
    split_ifs with hsid
    · subst hsid
      simp [hl, Ne.symm hc]
    · rfl
  · refine ⟨fun _ hq => absurd hq hsource, fun g hg => ?_, hr.publishes, hr.quiet,
      fun _ => ⟨by simp, by simp, by simp⟩, by simp, (fun hin => nomatch hin),
      fun hg => absurd hg hsource, hr.callbacks⟩
    rw [if_pos hpubs]
    cases hg
    rfl

theorem Routed.complete {cfg : Config} {s t : State} {a : HashMap String ℕ} (h : Routed cfg s a)
    {r : ℕ} (hs : stepRequest cfg s r (.complete r) = some t) : ∃ a', Routed cfg t a' := by
  have hr := h.requests r
  cases hpc : (s.requests r).pc <;> simp only [stepRequest, hpc, reduceCtorEq] at hs
  case completing waitCancelled result =>
  split_ifs at hs with hsource hres
  · cases hs
    refine ⟨a, h.setRequest r _ ⟨?_, ?_, hr.publishes, hr.quiet, fun _ => ⟨by simp, by simp, by simp⟩,
      by simp, (fun hin => nomatch hin), fun _ _ _ => rfl, hr.callbacks⟩ ?_ id (Finset.Subset.refl _) fun _ _ => id⟩
    · exact fun hp _ => hr.listed hp (by rw [hpc]; trivial)
    · intro g hg
      cases hg
      rw [if_pos (publishes_of_grpc hsource)]
    · exact fun sid hl => ⟨hl.streamId, hl.published, fun hc => absurd hsource hc⟩
  · have hpubs : cfg.publishes = true := by simp [Config.publishes, hres]
    obtain ⟨hans, href⟩ := h.refines.pop (s.requests r).streamId
    rw [hr.listed hpubs (by rw [hpc]; trivial)] at hans
    rw [hans] at hs
    cases hs
    exact ⟨_, h.unpublish hpc hsource hpubs href⟩
  · cases hs
    have hpubs : cfg.publishes = false := by simp [Config.publishes, hsource, hres]
    have hp : (s.requests r).published = false := by
      by_contra hp
      have := hr.publishes (by simpa using hp)
      rw [hpubs] at this
      cases this
    refine ⟨a, h.setRequest r _ ⟨?_, ?_, hr.publishes, hr.quiet, by simp [hp], by simp,
      (fun hin => nomatch hin), fun hc => absurd hc hsource, hr.callbacks⟩ ?_ id (Finset.Subset.refl _) fun _ _ => id⟩
    · simp [hpubs]
    · intro g hg
      cases hg
      simp [hpubs]
    · exact fun sid hl => absurd hl.published (by simp [hp])

theorem Routed.lockWrite {cfg : Config} {s t : State} {a : HashMap String ℕ} (h : Routed cfg s a)
    {r : ℕ} (hs : stepRequest cfg s r (.lockWrite r) = some t) : Routed cfg t a := by
  have hr := h.requests r
  cases hpc : (s.requests r).pc <;> simp only [stepRequest, hpc, reduceCtorEq] at hs
  case locking removed waitCancelled result =>
  have hguard := hr.guard removed (by rw [hpc]; rfl)
  -- An entry that may still be listed belongs to a gRPC request, and that one is closing.
  have hlisted : ∀ sid, Listed cfg sid (s.requests r) → cfg.source = .grpc := by
    intro sid hl
    by_contra hc
    have := (hl.early hc).2
    rw [hpc] at this
    cases this
  have hok : ∀ q : Request, q.streamId = (s.requests r).streamId →
      q.pc.guard = some removed → (q.pc.Published cfg.source ↔ cfg.source = .grpc) →
      (q.pc ≠ .absent ∧ q.pc ≠ .begun ∧ ∀ result, q.pc ≠ .rejected result) →
      q.published = (s.requests r).published → q.readers = (s.requests r).readers →
      q.closing = (s.requests r).closing → q.callbacks = (s.requests r).callbacks →
      q.endBegan = true → RequestOk cfg a s.owner r q := by
    intro q hid hg hpubl hfresh hpub hread hclosing hcb hend
    refine ⟨?_, ?_, ?_, ?_, fun _ => hfresh, fun hb => absurd hb hfresh.2.1, fun _ => hend, ?_, ?_⟩
    · rw [hid, hpubl]
      exact fun hp hsrc => hr.listed hp (by rw [hpc]; exact hsrc)
    · intro g hg'
      rw [hg, Option.some.injEq] at hg'
      exact hg' ▸ hguard
    · rw [hpub]; exact hr.publishes
    · rw [hpub, hread]; exact hr.quiet
    · rw [hpub, hclosing]
      exact fun hsrc hp _ => hr.closing hsrc hp (Or.inr (by rw [hpc]; rfl))
    · rw [hcb]; exact hr.callbacks
  have hl : ∀ (q : Request) sid, q.streamId = (s.requests r).streamId →
      q.published = (s.requests r).published → Listed cfg sid (s.requests r) →
      Listed cfg sid q := by
    intro q sid hid hpub hl
    exact ⟨hid.trans hl.streamId, hpub.trans hl.published, fun hc => absurd (hlisted sid hl) hc⟩
  cases removed with
  | none =>
    cases hs
    have hp : (s.requests r).published = false := by
      by_contra hp
      rw [if_pos (hr.publishes (by simpa using hp))] at hguard
      cases hguard
    exact h.setRequest r _ (hok _ rfl rfl Iff.rfl ⟨by simp, by simp, by simp⟩ rfl rfl rfl rfl rfl)
      (fun sid hsid => hl _ sid rfl rfl hsid) id (Finset.Subset.refl _) (by simp [hp])
  | some e =>
    have he : e = r := by
      split_ifs at hguard
      exact Option.some.inj hguard
    subst he
    simp only at hs
    generalize (if waitCancelled && (s.requests e).done then .ok () else result) = outcome at hs
    split_ifs at hs with hfree
    cases hs
    refine h.change (q := { s.requests e with
        writer := true
        pc := .ending (some e) outcome
        endBegan := true })
      ?_ rfl h.refines (fun _ _ _ => Iff.rfl) (fun sid hsid => hl _ sid rfl rfl (h.listed sid e hsid))
      (fun _ _ => id) (fun _ _ => id)
      (hok _ rfl rfl Iff.rfl ⟨by simp, by simp, by simp⟩ rfl rfl rfl rfl rfl) id
      (Finset.Subset.refl _) (fun _ hne => absurd hfree.1 hne)
    simp only [State.setRequest, Function.update_idem, Function.update_self]

/-- A request that is past its end, or whose future is gone, is listed no more. -/
theorem Routed.retire {cfg : Config} {s : State} {a : HashMap String ℕ} (h : Routed cfg s a)
    {r : ℕ} {q : Request} (hpc : q.pc = .finished ∨ q.pc = .dropped)
    (hid : q.streamId = (s.requests r).streamId) (hpub : q.published = (s.requests r).published)
    (hend : q.endBegan = (s.requests r).endBegan) (hread : q.readers = (s.requests r).readers)
    (hclosing : q.closing = (s.requests r).closing)
    (hcb : q.callbacks = none ∨ q.callbacks = (s.requests r).callbacks) :
    Routed cfg (s.setRequest r q) a := by
  have hr := h.requests r
  have hguard : q.pc.guard = none := by rcases hpc with hpc | hpc <;> rw [hpc] <;> rfl
  refine h.setRequest r q ⟨?_, ?_, ?_, ?_, ?_, ?_, ?_, ?_, ?_⟩ ?_ ?_ ?_ ?_
  · rcases hpc with hpc | hpc <;> rw [hpc] <;> exact fun _ hq => hq.elim
  · simp [hguard]
  · rw [hpub]; exact hr.publishes
  · rw [hpub, hread]; exact hr.quiet
  · rcases hpc with hpc | hpc <;> rw [hpc] <;> exact fun _ => ⟨by simp, by simp, by simp⟩
  · rcases hpc with hpc | hpc <;> simp [hpc]
  · rcases hpc with hpc | hpc <;> simp [hpc, RequestPc.inEnd]
  · rw [hpub, hend, hclosing, hguard]
    exact fun hsrc hp he => hr.closing hsrc hp (Or.inl (by simpa using he))
  · rcases hcb with hcb | hcb
    · simp [hcb]
    · rw [hcb]; exact hr.callbacks
  · exact fun sid hl => ⟨hid.trans hl.streamId, hpub.trans hl.published, fun hc =>
      ⟨hend.trans (hl.early hc).1, hguard⟩⟩
  · rw [hpub]; exact id
  · rw [hread]
  · rw [hend]; exact fun _ _ => id

/-- gRPC's `pop_if` takes out the request's own entry. -/
theorem Routed.popIf {cfg : Config} {s : State} {a : HashMap String ℕ} (h : Routed cfg s a)
    {r : ℕ} (hpc : (s.requests r).pc = .finished) :
    Routed cfg { s with
      pending := (s.pending.popIf cfg.hash (s.requests r).streamId (· == r)).1 }
      (eraseIf a (s.requests r).streamId (· == r)) := by
  have hr := h.requests r
  obtain ⟨-, href⟩ := h.refines.popIf (s.requests r).streamId (· == r)
  have hlookup : ∀ sid r', (eraseIf a (s.requests r).streamId (· == r)).lookup sid = some r' →
      a.lookup sid = some r' := by
    intro sid r' hl
    unfold eraseIf at hl
    split at hl
    · split_ifs at hl
      · rw [lookup_erase_ite] at hl
        split_ifs at hl
        exact hl
      · exact hl
    · exact hl
  have hother : ∀ sid r', r' ≠ r → a.lookup sid = some r' →
      (eraseIf a (s.requests r).streamId (· == r)).lookup sid = some r' := by
    intro sid r' hc hl
    unfold eraseIf
    split
    case h_1 value hv =>
      split_ifs with hvr
      · rw [lookup_erase_ite]
        split_ifs with hsid
        · rw [hsid, hv, Option.some.injEq] at hl
          exact absurd (hl.symm.trans (by simpa using hvr)) hc
        · exact hl
      · exact hl
    case h_2 => exact hl
  refine h.change (r := r) (q := s.requests r) (Function.update_eq_self ..).symm rfl href
    (fun sid r' hc => ⟨hlookup sid r', hother sid r' hc⟩)
    (fun sid hl => h.listed sid r (hlookup sid r hl)) (fun _ sid => hlookup sid r) (fun _ _ => id)
    ?_ id (Finset.Subset.refl _) (fun _ _ => id)
  refine { hr with listed := ?_ }
  rw [hpc]
  exact fun _ hq => hq.elim

theorem Routed.finish {cfg : Config} {s t : State} {a : HashMap String ℕ} (h : Routed cfg s a)
    {r : ℕ} (hs : stepRequest cfg s r (.finish r) = some t) : ∃ a', Routed cfg t a' := by
  cases hpc : (s.requests r).pc <;> simp only [stepRequest, hpc, reduceCtorEq] at hs
  case closed guard =>
  have hq := h.retire (r := r) (q := { s.requests r with
    pc := .finished
    callbacks :=
      if cfg.source = .http ∨ cfg.source = .grpc then none else (s.requests r).callbacks })
    (Or.inl rfl) rfl rfl rfl rfl rfl (by
      by_cases hc : cfg.source = .http ∨ cfg.source = .grpc
      · exact Or.inl (if_pos hc)
      · exact Or.inr (if_neg hc))
  cases hs
  by_cases hsource : cfg.source = .grpc
  · rw [if_pos hsource]
    exact ⟨_, (hq.popIf (r := r) (by simp [State.setRequest])).unlock guard⟩
  · rw [if_neg hsource]
    exact ⟨_, hq.unlock guard⟩

theorem Routed.drop {cfg : Config} {s t : State} {a : HashMap String ℕ} (h : Routed cfg s a)
    {r : ℕ} (hs : stepRequest cfg s r (.drop r) = some t) : Routed cfg t a := by
  have hq := h.retire (r := r) (q := { s.requests r with
    pc := .dropped
    cancelled := (s.requests r).cancelled || cfg.source = .http })
    (Or.inr rfl) rfl rfl rfl rfl rfl (Or.inr rfl)
  by_cases hsource : cfg.source = .grpc
  · simp only [stepRequest, if_pos hsource, reduceCtorEq] at hs
  · cases hpc : (s.requests r).pc <;>
      simp only [stepRequest, if_neg hsource, hpc, reduceCtorEq, Option.some.injEq] at hs
    case ending guard result =>
      subst hs
      exact hq.unlock guard
    all_goals
      subst hs
      exact hq

theorem Routed.setResultCallback {cfg : Config} {s t : State} {a : HashMap String ℕ}
    (h : Routed cfg s a) {r : ℕ} {message : String} {callback : ℕ}
    (hs : stepRequest cfg s r (.setResultCallback r message callback) = some t) :
    Routed cfg t a := by
  have hr := h.requests r
  simp only [stepRequest] at hs
  split_ifs at hs with hc
  cases hs
  have ho : ∀ c r', s.owner c = some r' →
      Function.update s.owner callback (some r) c = some r' := by
    intro c r' hcr
    rw [Function.update_apply]
    split_ifs with hcc
    · rw [hcc, hc.2] at hcr
      cases hcr
    · exact hcr
  refine h.change rfl rfl h.refines (fun _ _ _ => Iff.rfl) ?_ (fun _ _ => id) ho ?_ id
    (Finset.Subset.refl _) (fun _ _ => id)
  · intro sid hsid
    have hl := h.listed sid r hsid
    exact ⟨hl.streamId, hl.published, hl.early⟩
  · refine { hr with callbacks := ?_ }
    intro m message' c hm hl
    cases hcb : (s.requests r).callbacks with
    | none => simp [hcb] at hm
    | some m₀ =>
      simp only [hcb, Option.map_some, Option.some.injEq] at hm
      rw [← hm, lookup_insert_ite] at hl
      split_ifs at hl with hmsg
      · cases hl
        exact Function.update_self ..
      · exact ho c r (hr.callbacks m₀ message' c hcb hl)

theorem Routed.abandon {cfg : Config} {s t : State} {a : HashMap String ℕ} (h : Routed cfg s a)
    {r : ℕ} (hs : stepRequest cfg s r (.abandon r) = some t) : Routed cfg t a := by
  have hr := h.requests r
  have key : (s.requests r).pc.Published cfg.source → Routed cfg (s.setRequest r { s.requests r with
      pc := .completing true (.error .requestContextCancelled)
      closing := true
      cancelled := true }) a := by
    intro hold
    refine h.setRequest r _ ⟨fun hp _ => hr.listed hp hold, (fun g hg => nomatch hg), hr.publishes,
      hr.quiet, fun _ => ⟨by simp, by simp, by simp⟩, by simp, (fun hin => nomatch hin),
      fun _ _ _ => rfl, hr.callbacks⟩ ?_ id
      (Finset.Subset.refl _) (fun _ _ => id)
    exact fun sid hl => ⟨hl.streamId, hl.published, fun hc => ⟨(hl.early hc).1, rfl⟩⟩
  cases hsource : cfg.source <;> cases hpc : (s.requests r).pc <;>
    simp only [stepRequest, hsource, hpc, reduceCtorEq, Option.some.injEq] at hs
  all_goals
    subst hs
    exact key (by rw [hpc]; trivial)

theorem Routed.endReturned {cfg : Config} {s t : State} {a : HashMap String ℕ}
    (h : Routed cfg s a) {r : ℕ} (hs : stepRequest cfg s r (.endReturned r) = some t) :
    Routed cfg t a := by
  have hr := h.requests r
  cases hpc : (s.requests r).pc <;>
    simp only [stepRequest, hpc, reduceCtorEq, Option.some.injEq] at hs
  case ending guard result =>
  subst hs
  refine h.setRequest r _ ⟨fun hp hq => hr.listed hp (by rw [hpc]; exact hq), fun g hg => ?_,
    hr.publishes, hr.quiet, fun _ => ⟨by simp, by simp, by simp⟩, by simp,
    (fun hin => nomatch hin), ?_, hr.callbacks⟩ ?_ id (Finset.Subset.refl _) (fun _ _ => id)
  · exact hr.guard g (by rw [hpc]; exact hg)
  · exact fun hsrc hp _ => hr.closing hsrc hp (Or.inr (by rw [hpc]; rfl))
  · intro sid hl
    refine ⟨hl.streamId, hl.published, fun hc => ?_⟩
    have := (hl.early hc).2
    rw [hpc] at this
    cases this

/-- **A step of a request.** -/
theorem Routed.stepRequest {cfg : Config} {s t : State} {a : HashMap String ℕ} {r : ℕ}
    {act : Action} (h : Routed cfg s a) (hs : stepRequest cfg s r act = some t) :
    ∃ a', Routed cfg t a' := by
  have hr := h.requests r
  cases act with
  | begin _ sid =>
    cases hpc : (s.requests r).pc <;> simp only [ResultRouting.stepRequest, hpc, reduceCtorEq] at hs
    cases hs
    exact ⟨a, h.begin hpc sid⟩
  | register _ => exact h.register hs
  | endRejected _ =>
    cases hpc : (s.requests r).pc <;> simp only [ResultRouting.stepRequest, hpc, reduceCtorEq] at hs
    cases hs
    refine ⟨a, h.retire (Or.inl rfl) rfl rfl rfl rfl rfl ?_⟩
    by_cases hc : cfg.source = .http
    · exact Or.inl (if_pos hc)
    · exact Or.inr (if_neg hc)
  | setResultCallback _ message callback => exact ⟨a, h.setResultCallback hs⟩
  | done _ =>
    cases hs
    exact ⟨a, h.touch r _ rfl rfl rfl rfl rfl id hr.callbacks⟩
  | cancel _ =>
    cases hs
    exact ⟨a, h.touch r _ rfl rfl rfl rfl rfl id hr.callbacks⟩
  | consumed _ result =>
    cases hpc : (s.requests r).pc <;> simp only [ResultRouting.stepRequest, hpc, reduceCtorEq] at hs
    have hold : (s.requests r).pc.Published cfg.source := by rw [hpc]; trivial
    split_ifs at hs <;> cases hs <;>
      exact ⟨a, h.goto r _ (Or.inl hold) rfl ⟨by simp, by simp, by simp⟩⟩
  | waited _ byDone =>
    cases hpc : (s.requests r).pc <;> simp only [ResultRouting.stepRequest, hpc, reduceCtorEq] at hs
    have hold : (s.requests r).pc.Published cfg.source := by rw [hpc]; trivial
    split_ifs at hs <;> cases hs <;>
      exact ⟨a, h.goto r _ (Or.inl hold) rfl ⟨by simp, by simp, by simp⟩⟩
  | received _ value =>
    cases hsource : cfg.source <;> cases hpc : (s.requests r).pc <;>
      simp only [ResultRouting.stepRequest, hsource, hpc, reduceCtorEq] at hs
    have hold : (s.requests r).pc.Published cfg.source := by rw [hpc]; trivial
    split_ifs at hs <;> cases hs <;>
      exact ⟨a, h.goto r _ (Or.inl hold) rfl ⟨by simp, by simp, by simp⟩⟩
  | abandon _ => exact ⟨a, h.abandon hs⟩
  | complete _ => exact h.complete hs
  | lockWrite _ => exact ⟨a, h.lockWrite hs⟩
  | endReturned _ => exact ⟨a, h.endReturned hs⟩
  | finish _ => exact h.finish hs
  | drop _ => exact ⟨a, h.drop hs⟩
  | deliver _ _ | lookup _ | lockRead _ | late _ | checkClosing _ | checkPending _ | identified _ _
  | called _ _ | dropDelivery _ | rotateShard _ _ => cases hs

/-! ### A delivery's steps -/

theorem Routed.get {cfg : Config} {s : State} {a : HashMap String ℕ} (h : Routed cfg s a)
    (sid : Option String) : sid.bind (s.pending.get cfg.hash) = sid.bind (a.lookup ·) := by
  congr 1
  funext sid
  exact h.refines.get sid

theorem Routed.lockRead {cfg : Config} {s t : State} {a : HashMap String ℕ} (h : Routed cfg s a)
    {d : ℕ} (hs : stepDelivery cfg s d (.lockRead d) = some t) : Routed cfg t a := by
  have hd := h.deliveries d
  cases hpc : (s.deliveries d).pc <;> simp only [stepDelivery, hpc, reduceCtorEq] at hs
  case locking r =>
  split_ifs at hs with hfree hsource <;> cases hs
  all_goals
    have hr := h.requests r
    simp only [DeliveryOk, hpc] at hd
    have hq : Routed cfg (s.setRequest r
        { s.requests r with readers := insert d (s.requests r).readers }) a := by
      refine h.setRequest r _ { hr with quiet := fun hp => ?_ }
        (fun sid hl => ⟨hl.streamId, hl.published, hl.early⟩) id (Finset.subset_insert _ _)
        (fun _ _ => id)
      rw [hd.2] at hp
      cases hp
    have hholds : ∀ q : Delivery, q.looked = (s.deliveries d).looked →
        (q.publishedAtLock = false → q.streamId.bind (a.lookup ·) ≠ some r) →
        Holds a (s.setRequest r
          { s.requests r with readers := insert d (s.requests r).readers }).requests d r q := by
      intro q hlooked hgone
      refine ⟨hlooked.trans hd.1, ?_, ?_, hgone⟩
      · simpa [State.setRequest] using hd.2
      · simp [State.setRequest]
  · refine hq.setDelivery d _ (hholds _ rfl fun hp => ?_)
    rw [← h.get]
    simpa using hp
  · refine hq.setDelivery d _ ⟨hholds _ rfl fun hp => ?_, fun hc => absurd hc hsource⟩
    rw [← h.get]
    simpa using hp

theorem Routed.checkPending {cfg : Config} {s t : State} {a : HashMap String ℕ}
    (h : Routed cfg s a) {d : ℕ} (hs : stepDelivery cfg s d (.checkPending d) = some t) :
    Routed cfg t a := by
  have hd := h.deliveries d
  cases hpc : (s.deliveries d).pc <;> simp only [stepDelivery, hpc, reduceCtorEq] at hs
  case matching r =>
  simp only [DeliveryOk, hpc] at hd
  obtain ⟨hd, hopen⟩ := hd
  split_ifs at hs with hlisted <;> cases hs
  · rw [h.get] at hlisted
    refine h.setDelivery d _ ⟨hd.looked, hd.published, hd.reading, ?_, ?_⟩
    · by_contra hp
      exact hd.gone (by simpa using hp) hlisted
    · by_cases hsource : cfg.source = .grpc
      · exact hopen hsource
      · obtain ⟨sid, -, hl⟩ := Option.bind_eq_some_iff.1 hlisted
        exact ((h.listed sid r hl).early hsource).1
  · exact h.leave d r

/-- **A step of a delivery.** -/
theorem Routed.stepDelivery {cfg : Config} {s t : State} {a : HashMap String ℕ} {d : ℕ}
    {act : Action} (h : Routed cfg s a) (hs : stepDelivery cfg s d act = some t) :
    Routed cfg t a := by
  have hd := h.deliveries d
  cases act with
  | deliver _ sid =>
    cases hpc : (s.deliveries d).pc <;>
      simp only [ResultRouting.stepDelivery, hpc, reduceCtorEq] at hs
    cases hs
    exact h.setDelivery d _ trivial
  | lookup _ =>
    cases hpc : (s.deliveries d).pc <;>
      simp only [ResultRouting.stepDelivery, hpc, reduceCtorEq] at hs
    rw [h.get] at hs
    cases hl : (s.deliveries d).streamId.bind (a.lookup ·) with
    | none =>
      rw [hl] at hs
      cases hs
      exact h.setDelivery d _ trivial
    | some r =>
      rw [hl] at hs
      cases hs
      obtain ⟨sid, -, hl⟩ := Option.bind_eq_some_iff.1 hl
      exact h.setDelivery d _ ⟨rfl, (h.listed sid r hl).published⟩
  | lockRead _ => exact h.lockRead hs
  | late _ =>
    cases hpc : (s.deliveries d).pc <;>
      simp only [ResultRouting.stepDelivery, hpc, reduceCtorEq] at hs
    split_ifs at hs
    cases hs
    exact h.setDelivery d _ trivial
  | checkClosing _ =>
    cases hpc : (s.deliveries d).pc <;>
      simp only [ResultRouting.stepDelivery, hpc, reduceCtorEq] at hs
    case admitted r =>
    simp only [DeliveryOk, hpc] at hd
    split_ifs at hs with hclosing <;> cases hs
    · exact h.leave d r
    · refine h.setDelivery d _ ⟨⟨hd.looked, hd.published, hd.reading, hd.gone⟩, fun hsource => ?_⟩
      by_contra he
      exact hclosing (Or.inl ((h.requests r).closing hsource hd.published (Or.inl (by simpa using he))))
  | checkPending _ => exact h.checkPending hs
  | identified _ message =>
    cases hpc : (s.deliveries d).pc <;>
      simp only [ResultRouting.stepDelivery, hpc, reduceCtorEq] at hs
    case identifying r =>
    simp only [DeliveryOk, hpc] at hd
    cases hcb : (s.requests r).callbacks.bind fun callbacks => callbacks.lookup message with
    | none =>
      rw [hcb] at hs
      cases hs
      exact h.leave d r
    | some callback =>
      rw [hcb] at hs
      cases hs
      obtain ⟨m, hm, hl⟩ := Option.bind_eq_some_iff.1 hcb
      exact h.setDelivery d _
        ⟨⟨hd.looked, hd.published, hd.reading, hd.publishedAtLock, hd.open_⟩,
          (h.requests r).callbacks m message callback hm hl⟩
  | called _ remove =>
    cases hpc : (s.deliveries d).pc <;>
      simp only [ResultRouting.stepDelivery, hpc, reduceCtorEq] at hs
    case calling r message callback =>
    cases hs
    have hr := h.requests r
    apply Routed.leave
    refine h.touch r _ rfl rfl rfl rfl rfl id ?_
    intro m message' c hm hl
    cases hcb : (s.requests r).callbacks with
    | none => simp [hcb] at hm
    | some m₀ =>
      simp only [hcb, Option.map_some, Option.some.injEq] at hm
      refine hr.callbacks m₀ message' c hcb ?_
      rw [← hm] at hl
      split_ifs at hl
      · rw [lookup_erase_ite] at hl
        split_ifs at hl
        exact hl
      · exact hl
  | dropDelivery _ =>
    cases hpc : (s.deliveries d).pc <;>
      simp only [ResultRouting.stepDelivery, hpc, reduceCtorEq] at hs
    case locking r =>
      cases hs
      exact h.setDelivery d _ trivial
    all_goals
      cases hs
      exact h.leave d _
  | begin _ _ | register _ | endRejected _ | setResultCallback _ _ _ | done _ | cancel _
  | consumed _ _ | waited _ _ | received _ _ | abandon _ | complete _ | lockWrite _
  | endReturned _ | finish _ | drop _ | rotateShard _ _ => cases hs

theorem Routed.step {cfg : Config} {s t : State} {a : HashMap String ℕ} {act : Action}
    (h : Routed cfg s a) (hs : step cfg s act = some t) : ∃ a', Routed cfg t a' := by
  unfold ResultRouting.step at hs
  cases act with
  | rotateShard i order =>
    cases hs
    exact ⟨a, h.refines.rotateShard cfg.minCapacity i order, h.listed, h.requests, h.deliveries⟩
  | begin _ _ | register _ | endRejected _ | setResultCallback _ _ _ | done _ | cancel _
  | consumed _ _ | waited _ _ | received _ _ | abandon _ | complete _ | lockWrite _
  | endReturned _ | finish _ | drop _ => exact h.stepRequest hs
  | deliver _ _ | lookup _ | lockRead _ | late _ | checkClosing _ | checkPending _ | identified _ _
  | called _ _ | dropDelivery _ => exact ⟨a, h.stepDelivery hs⟩

theorem routed {cfg : Config} {s : State} (h : (routing cfg).Reachable s) :
    ∃ a, Routed cfg s a :=
  h.invariant (I := fun s => ∃ a, Routed cfg s a) ⟨∅, routed_init cfg⟩
    fun _ _ _ ⟨_, hi⟩ hs => hi.step hs

/-! ## What a step leaves alone -/

/-- The step of a request, as the others see it. -/
def Beside (r : ℕ) (s t : State) : Prop :=
  t.deliveries = s.deliveries ∧ ∀ r', r' ≠ r → (t.requests r').pc = (s.requests r').pc

theorem Beside.setRequest {r : ℕ} {s t : State} (h : Beside r s t) (q : Request) :
    Beside r s (t.setRequest r q) := by
  refine ⟨h.1, fun r' hne => ?_⟩
  rw [← h.2 r' hne]
  exact congrArg Request.pc (Function.update_of_ne hne ..)

theorem pc_setRequest {s : State} {e : ℕ} {q : Request} (hq : q.pc = (s.requests e).pc) (r : ℕ) :
    ((s.setRequest e q).requests r).pc = (s.requests r).pc := by
  change (Function.update s.requests e q r).pc = _
  by_cases hr : r = e
  · subst hr
    rw [Function.update_self, hq]
  · rw [Function.update_of_ne hr]

theorem pc_unlock (s : State) (guard : Option ℕ) (r : ℕ) :
    ((s.unlock guard).requests r).pc = (s.requests r).pc := by
  cases guard with
  | none => rfl
  | some e => exact pc_setRequest (q := { s.requests e with writer := false }) rfl r

theorem Beside.unlock {r : ℕ} {s t : State} (h : Beside r s t) (guard : Option ℕ) :
    Beside r s (t.unlock guard) := by
  refine ⟨?_, fun r' hne => (pc_unlock t guard r').trans (h.2 r' hne)⟩
  rw [← h.1]
  cases guard <;> rfl

/-- A step of a request leaves the deliveries alone, and the other requests where they are. -/
theorem stepRequest_beside {cfg : Config} {s t : State} {r : ℕ} {a : Action}
    (hs : stepRequest cfg s r a = some t) : Beside r s t := by
  have hrefl : Beside r s s := ⟨rfl, fun _ _ => rfl⟩
  have hset : ∀ (pending : RotatingMap String ℕ) (owner : ℕ → Option ℕ) (q : Request),
      Beside r s (State.setRequest { s with pending := pending, owner := owner } r q) :=
    fun pending owner q => hrefl.setRequest q
  cases a with
  | lockWrite _ =>
    cases hpc : (s.requests r).pc <;> simp only [stepRequest, hpc, reduceCtorEq] at hs
    rename_i removed waitCancelled result
    cases removed with
    | none =>
      rw [Option.some.injEq] at hs
      exact hs ▸ hrefl.setRequest _
    | some e =>
      dsimp only at hs
      split at hs
      · rw [Option.some.injEq] at hs
        have hlock : Beside r s (s.setRequest e { s.requests e with writer := true }) :=
          ⟨rfl, fun r' _ => pc_setRequest (q := { s.requests e with writer := true }) rfl r'⟩
        exact hs ▸ hlock.setRequest _
      · cases hs
  | finish _ =>
    cases hpc : (s.requests r).pc <;> simp only [stepRequest, hpc, reduceCtorEq] at hs
    rw [Option.some.injEq] at hs
    refine hs ▸ Beside.unlock ?_ _
    by_cases hsource : cfg.source = .grpc
    · rw [if_pos hsource]
      exact hset _ s.owner _
    · rw [if_neg hsource]
      exact hrefl.setRequest _
  | drop _ =>
    simp only [stepRequest] at hs
    split at hs
    · cases hs
    cases hpc : (s.requests r).pc <;> simp only [hpc, reduceCtorEq, Option.some.injEq] at hs
    case ending guard result => exact hs ▸ (hrefl.setRequest _).unlock guard
    all_goals exact hs ▸ hrefl.setRequest _
  | begin _ _ | register _ | endRejected _ | setResultCallback _ _ _ | done _ | cancel _
  | consumed _ _ | waited _ _ | received _ _ | abandon _ | complete _ | endReturned _ =>
    simp only [stepRequest] at hs
    repeat' split at hs
    all_goals first
      | cases hs
        done
      | rw [Option.some.injEq] at hs
        exact hs ▸ hset _ _ _
  | deliver _ _ | lookup _ | lockRead _ | late _ | checkClosing _ | checkPending _ | identified _ _
  | called _ _ | dropDelivery _ | rotateShard _ _ => cases hs

/-- The step of a delivery, as the others see it. -/
structure Around (d : ℕ) (s t : State) : Prop where
  pending : t.pending = s.pending
  pc : ∀ r, (t.requests r).pc = (s.requests r).pc
  deliveries : ∀ d', d' ≠ d → t.deliveries d' = s.deliveries d'

theorem Around.setDelivery {d : ℕ} {s t : State} (h : Around d s t) (q : Delivery) :
    Around d s (t.setDelivery d q) := by
  refine ⟨h.pending, h.pc, fun d' hne => ?_⟩
  rw [← h.deliveries d' hne]
  exact Function.update_of_ne hne ..

theorem Around.setRequest {d : ℕ} {s t : State} (h : Around d s t) {e : ℕ} {q : Request}
    (hq : q.pc = (t.requests e).pc) : Around d s (t.setRequest e q) :=
  ⟨h.pending, fun r => (pc_setRequest hq r).trans (h.pc r), h.deliveries⟩

theorem Around.leave {d : ℕ} {s t : State} (h : Around d s t) (r : ℕ) : Around d s (t.leave d r) :=
  (h.setRequest (q := { t.requests r with readers := (t.requests r).readers.erase d })
    rfl).setDelivery _

/-- A step of a delivery leaves `pending` and the other deliveries alone, and the requests where
they are. -/
theorem stepDelivery_around {cfg : Config} {s t : State} {d : ℕ} {a : Action}
    (hs : stepDelivery cfg s d a = some t) : Around d s t := by
  have hrefl : Around d s s := ⟨rfl, fun _ => rfl, fun _ _ => rfl⟩
  cases a with
  | lockRead _ =>
    cases hpc : (s.deliveries d).pc <;> simp only [stepDelivery, hpc, reduceCtorEq] at hs
    rename_i r
    split at hs
    · rw [Option.some.injEq] at hs
      exact hs ▸ (hrefl.setRequest (q := { s.requests r with
        readers := insert d (s.requests r).readers }) rfl).setDelivery _
    · cases hs
  | called _ remove =>
    cases hpc : (s.deliveries d).pc <;>
      simp only [stepDelivery, hpc, reduceCtorEq, Option.some.injEq] at hs
    rename_i r message callback
    exact hs ▸ (hrefl.setRequest (q := { s.requests r with
      callbacks := (s.requests r).callbacks.map fun m : HashMap String ℕ =>
        if remove then m.erase message else m }) rfl).leave r
  | deliver _ _ | lookup _ | late _ | checkClosing _ | checkPending _ | identified _ _
  | dropDelivery _ =>
    simp only [stepDelivery] at hs
    repeat' split at hs
    all_goals first
      | cases hs
        done
      | rw [Option.some.injEq] at hs
        first
          | exact hs ▸ hrefl.setDelivery _
          | exact hs ▸ hrefl.leave _
  | begin _ _ | register _ | endRejected _ | setResultCallback _ _ _ | done _ | cancel _
  | consumed _ _ | waited _ _ | received _ _ | abandon _ | complete _ | lockWrite _
  | endReturned _ | finish _ | drop _ | rotateShard _ _ => cases hs

/-- The delivery that takes a step. -/
def Action.ofDelivery : Action → Option ℕ
  | .deliver d _ | .lookup d | .lockRead d | .late d | .checkClosing d | .checkPending d
  | .identified d _ | .called d _ | .dropDelivery d => some d
  | _ => none

/-- The request that takes a step. -/
def Action.ofRequest : Action → Option ℕ
  | .begin r _ | .register r | .endRejected r | .setResultCallback r _ _ | .done r | .cancel r
  | .consumed r _ | .waited r _ | .received r _ | .abandon r | .complete r | .lockWrite r
  | .endReturned r | .finish r | .drop r => some r
  | _ => none

theorem step_deliveries {cfg : Config} {s t : State} {a : Action} (hs : step cfg s a = some t)
    {d : ℕ} (hd : a.ofDelivery ≠ some d) : t.deliveries d = s.deliveries d := by
  unfold step at hs
  cases a with
  | rotateShard i order =>
    cases hs
    rfl
  | begin _ _ | register _ | endRejected _ | setResultCallback _ _ _ | done _ | cancel _
  | consumed _ _ | waited _ _ | received _ _ | abandon _ | complete _ | lockWrite _
  | endReturned _ | finish _ | drop _ => exact congrFun (stepRequest_beside hs).1 d
  | deliver _ _ | lookup _ | lockRead _ | late _ | checkClosing _ | checkPending _ | identified _ _
  | called _ _ | dropDelivery _ =>
    exact (stepDelivery_around hs).deliveries d fun hc => hd (congrArg some hc.symm)

theorem step_requests {cfg : Config} {s t : State} {a : Action} (hs : step cfg s a = some t)
    {r : ℕ} (hr : a.ofRequest ≠ some r) : (t.requests r).pc = (s.requests r).pc := by
  unfold step at hs
  cases a with
  | rotateShard i order =>
    cases hs
    rfl
  | begin _ _ | register _ | endRejected _ | setResultCallback _ _ _ | done _ | cancel _
  | consumed _ _ | waited _ _ | received _ _ | abandon _ | complete _ | lockWrite _
  | endReturned _ | finish _ | drop _ =>
    exact (stepRequest_beside hs).2 r fun hc => hr (congrArg some hc.symm)
  | deliver _ _ | lookup _ | lockRead _ | late _ | checkClosing _ | checkPending _ | identified _ _
  | called _ _ | dropDelivery _ => exact (stepDelivery_around hs).pc r

/-- A delivery waits for the lock until it is granted, or the delivery gives up. -/
theorem step_locking {cfg : Config} {s t : State} {a : Action} (hs : step cfg s a = some t)
    {d r : ℕ} (hpc : (s.deliveries d).pc = .locking r) :
    (t.deliveries d).pc = .locking r ∨ a = .lockRead d ∨ a = .late d ∨ a = .dropDelivery d := by
  by_cases hd : a.ofDelivery = some d
  · cases a <;> simp only [Action.ofDelivery, Option.some.injEq, reduceCtorEq] at hd <;> subst hd
    case lockRead => exact .inr (.inl rfl)
    case late => exact .inr (.inr (.inl rfl))
    case dropDelivery => exact .inr (.inr (.inr rfl))
    all_goals simp only [step, stepDelivery, hpc, reduceCtorEq] at hs
  · rw [step_deliveries hs hd]
    exact .inl hpc

/-- A callback runs until it returns, or the delivery is dropped. -/
theorem step_calling {cfg : Config} {s t : State} {a : Action} (hs : step cfg s a = some t)
    {d r c : ℕ} {message : String} (hpc : (s.deliveries d).pc = .calling r message c) :
    (t.deliveries d).pc = .calling r message c ∨ (∃ remove, a = .called d remove) ∨
      a = .dropDelivery d := by
  by_cases hd : a.ofDelivery = some d
  · cases a <;> simp only [Action.ofDelivery, Option.some.injEq, reduceCtorEq] at hd <;> subst hd
    case called => exact .inr (.inl ⟨_, rfl⟩)
    case dropDelivery => exact .inr (.inr rfl)
    all_goals simp only [step, stepDelivery, hpc, reduceCtorEq] at hs
  · rw [step_deliveries hs hd]
    exact .inl hpc

theorem step_returned {cfg : Config} {s t : State} {a : Action} (hs : step cfg s a = some t)
    {d : ℕ} (hpc : (s.deliveries d).pc = .returned) : (t.deliveries d).pc = .returned := by
  by_cases hd : a.ofDelivery = some d
  · cases a <;> simp only [Action.ofDelivery, Option.some.injEq, reduceCtorEq] at hd <;> subst hd <;>
      simp only [step, stepDelivery, hpc, reduceCtorEq] at hs
  · rwa [step_deliveries hs hd]

/-- A request waits for the lock until it is granted, or the request is dropped. -/
theorem step_completing {cfg : Config} {s t : State} {a : Action} (hs : step cfg s a = some t)
    {r : ℕ} {removed : Option ℕ} {waitCancelled : Bool} {result : HandlerResult}
    (hpc : (s.requests r).pc = .locking removed waitCancelled result) :
    (t.requests r).pc = .locking removed waitCancelled result ∨ a = .lockWrite r ∨ a = .drop r := by
  by_cases hr : a.ofRequest = some r
  · cases a <;> simp only [Action.ofRequest, Option.some.injEq, reduceCtorEq] at hr <;> subst hr
    case lockWrite => exact .inr (.inl rfl)
    case drop => exact .inr (.inr rfl)
    case done | cancel =>
      simp only [step, stepRequest, Option.some.injEq] at hs
      refine .inl (Eq.trans ?_ hpc)
      rw [← hs]
      exact pc_setRequest (by rfl) _
    case setResultCallback =>
      simp only [step, stepRequest] at hs
      split_ifs at hs
      rw [Option.some.injEq] at hs
      refine .inl (Eq.trans ?_ hpc)
      rw [← hs]
      exact pc_setRequest (by rfl) _
    all_goals simp only [step, stepRequest, hpc, reduceCtorEq] at hs
    all_goals
      split at hs <;> simp only [reduceCtorEq] at *
  · rw [step_requests hs hr]
    exact .inl hpc

/-- A delivery runs a callback after it has found it. -/
theorem step_to_calling {cfg : Config} {s t : State} {a : Action} (hs : step cfg s a = some t)
    {d r c : ℕ} {message : String} (hpc : (t.deliveries d).pc = .calling r message c) :
    (s.deliveries d).pc = .calling r message c ∨ (s.deliveries d).pc = .identifying r := by
  by_cases hd : a.ofDelivery = some d
  · cases a <;> simp only [Action.ofDelivery, Option.some.injEq, reduceCtorEq] at hd <;> subst hd <;>
      simp only [step, stepDelivery] at hs
    all_goals
      repeat' split at hs
    all_goals first
      | cases hs
        done
      | cases hs
        simp only [State.leave, State.setDelivery, Function.update_self, reduceCtorEq,
          DeliveryPc.calling.injEq] at hpc
        done
      | cases hs
        simp only [State.setDelivery, Function.update_self, DeliveryPc.calling.injEq] at hpc
        rename_i hold _ _ _
        exact .inr (hold.trans (congrArg _ hpc.1))
  · rw [step_deliveries hs hd] at hpc
    exact .inl hpc

/-! ## The result -/

/-- **A callback runs within its request.** In every reachable state of every source, a delivery
that is running a callback runs it for the entry it looked up, and that entry was still published
when the delivery obtained the read guard; the callback was registered for that entry's request;
and that request is not inside `end_request`, nor has `end_request` ever begun for it. -/
theorem callback_within_request (cfg : Config) (s : State) (h : (routing cfg).Reachable s)
    (d r c : ℕ) (message : String) (hc : (s.deliveries d).pc = .calling r message c) :
    (s.deliveries d).looked = some r ∧ (s.deliveries d).publishedAtLock = true ∧
      s.owner c = some r ∧ (s.requests r).pc.inEnd = false ∧ (s.requests r).endBegan = false := by
  obtain ⟨a, ha⟩ := routed h
  have hd := ha.deliveries d
  simp only [DeliveryOk, hc] at hd
  obtain ⟨hd, ho⟩ := hd
  refine ⟨hd.looked, hd.publishedAtLock, ho, ?_, hd.open_⟩
  by_contra hin
  have := (ha.requests r).began (by simpa using hin)
  rw [hd.open_] at this
  cases this

/-- An HTTP request registers a callback, and a result for its stream arrives. -/
def delivering : List Action :=
  [.begin 0 "a", .register 0, .setResultCallback 0 "m" 7, .deliver 1 (some "a"), .lookup 1,
    .lockRead 1, .checkPending 1, .identified 1 "m"]

/-- A source with a result stream. -/
def withResult (source : Source) : Config := ⟨source, true, String.length, 1⟩

def sampleConfig : Config := ⟨.http, true, String.length, 1⟩

theorem delivering_runs : ((routing sampleConfig).run State.init delivering).isSome := by
  decide

theorem callback_within_request_delivering :
    ∃ s, (routing sampleConfig).Reachable s ∧ (s.deliveries 1).pc = .calling 0 "m" 7 ∧
      (s.deliveries 1).looked = some 0 ∧ (s.requests 0).endBegan = false := by
  have h := System.reachable_get delivering_runs
  have hc := callback_within_request _ _ h 1 0 7 "m" (by decide)
  exact ⟨_, h, by decide, hc.1, hc.2.2.2.2⟩

end ResultRouting

end ServiceLib
