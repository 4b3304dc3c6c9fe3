import ServiceLib.Gate
import ServiceLib.Runtime.Error

/-!
# The lifecycle of a Kafka source

Follows `RdkafkaKafkaDataSource` and the lifecycle of `RdkafkaKafkaEndpoint` in
`src/datasource/kafka/rdkafka.rs`. A source starts its endpoints one after the other and, if one of
them fails, stops those that it has started; `stop` stops them in reverse order. Both hold the gate
of `ServiceLib.Gate`, so that any number of calls may run, find their context cancelled, and be
dropped wherever they await something, also inside the lifecycle of an endpoint. Tasks of endpoints
run beside that, and end or panic at any time.

**Theorem (`stopped_released`).** After `stop` has succeeded nothing is left: no endpoint has a
task, a context or a client, all that were started refuse messages, and nothing is started again.

**Theorem (`started_accounted`).** Every endpoint whose start was called, completed or not, is
either owned by the source or was stopped, exactly once; the starts follow the registrations.

**Theorem (`call_returned`).** What a call that returns has done, for each of its results. A `start`
that succeeds has started every endpoint; a `stop` that fails still owns what it could not stop.

**Theorem (`stop_possible`).** However the calls so far have ended, at most two more calls of `stop`
bring the source to its end, if tasks that are told to end do.

The idea: the gate reduces all interleavings to one call (`Source.Ok` while the gate is free, `At`
while it is held). An endpoint is owned before anything of it exists.

The loop that the task of an endpoint runs is in `ServiceLib.Kafka.ConsumeLoop`.
-/

namespace ServiceLib

namespace KafkaSource

open Gate (Protocol Rules AfterOk)

/-! ## Endpoints -/

/-- The task of an endpoint, as its `JoinHandle` sees it. -/
inductive Task
  | running
  | finished
  | panicked (message : String)
  deriving DecidableEq

/-- `RdkafkaKafkaEndpoint`. -/
structure Endpoint where
  name : String
  /-- Is the token `stop` cancelled? -/
  stop : Bool
  /-- The context of the task, if there is one: is it cancelled? -/
  context : Option Bool
  task : Option Task
  /-- Is a client in `consumer`? -/
  consumer : Bool
  /-- `endpoint_consumer` takes messages, as `concurrency.stopped` is not set. -/
  accepting : Bool

/-- What the configuration says about an endpoint when it is started. -/
inductive Configured
  | disabled
  | invalid (error : RuntimeError)
  | enabled

namespace Endpoint

def new (name : String) : Endpoint where
  name := name
  stop := false
  context := none
  task := none
  consumer := false
  accepting := true

/-- `start` until it locks the task; a result ends it. -/
def start (e : Endpoint) : Configured → Option (RuntimeResult Unit)
  | .disabled => some (.ok ())
  | .invalid error => some (.error error)
  | .enabled => if e.stop then some (.error (.resourceStopped e.name)) else none

/-- `endpoint_consumer.start()`. -/
def startConsumer (e : Endpoint) : Endpoint := { e with accepting := true }

/-- The end of `start`: the context is set, and the task is spawned. -/
def spawn (e : Endpoint) : Endpoint := { e with context := some false, task := some .running }

/-- `stop` until it locks the task. -/
def signalStop (e : Endpoint) : Endpoint := { e with accepting := false, stop := true }

/-- `lifecycle_context.cancel()`. -/
def cancelContext (e : Endpoint) : Endpoint := { e with context := e.context.map fun _ => true }

end Endpoint

/-! ## The source -/

/-- `state`, 0 to 3. -/
inductive Phase
  | new
  | started
  | stopped
  | stopping
  deriving DecidableEq

/-- `RdkafkaKafkaDataSource`. -/
structure Source where
  name : String
  endpoints : List ℤ
  phase : Phase
  /-- `active_endpoints`. -/
  active : List ℤ
  endpoint : ℤ → Endpoint
  /-- The endpoints whose `start` was called. -/
  starts : List ℤ
  /-- Those of them that were disabled. -/
  disabled : List ℤ
  /-- The endpoints whose `stop` has succeeded. -/
  stops : List ℤ

namespace Source

def new (name : String) : Source where
  name := name
  endpoints := []
  phase := .new
  active := []
  endpoint := fun _ => .new ""
  starts := []
  disabled := []
  stops := []

def setEndpoint (d : Source) (id : ℤ) (e : Endpoint) : Source :=
  { d with endpoint := Function.update d.endpoint id e }

/-- `configured` is what the configuration of the endpoint says, `made` whether its parts can be
made. -/
def addEndpoint (d : Source) (id : ℤ) (name : String) (configured made : RuntimeResult Unit) :
    RuntimeResult Source := do
  configured
  if d.phase ≠ .new then throw (.resourceAlreadyStarted d.name)
  if id ∈ d.endpoints then throw (.duplicateResource name)
  made
  return { d.setEndpoint id (.new name) with endpoints := d.endpoints ++ [id] }

end Source

/-! ## Calls -/

inductive Entry
  | start
  | stop

inductive Outcome
  | start (result : RuntimeResult Unit)
  | stop (result : RuntimeResult Unit)
  deriving DecidableEq

/-- Why endpoints are stopped. -/
inductive Purpose
  /-- The start of an endpoint has failed. -/
  | rollback (error : RuntimeError)
  | stop

/-- What the `start` of an endpoint awaits. -/
inductive StartPc
  /-- `self.task.lock()`. -/
  | locking
  /-- `self.context.lock()`, with the consumer started. -/
  | entering

/-- What the `stop` of an endpoint awaits. -/
inductive StopPc
  /-- The locks of the task and the context. -/
  | locking
  | joining
  /-- `self.context.lock()`. -/
  | clearing
  /-- `self.consumer.lock()`. -/
  | taking

inductive Pc
  | creatingTopics (endpoints : List ℤ)
  /-- The loop of `start`. -/
  | startNext (todo : List ℤ)
  | starting (id : ℤ) (pc : StartPc) (todo : List ℤ)
  /-- The loop of `stop_active_endpoints`. -/
  | stopNext (purpose : Purpose) (todo : List ℤ) (firstError : Option RuntimeError)
  | stopping (purpose : Purpose) (id : ℤ) (pc : StopPc) (todo : List ℤ)
      (firstError : Option RuntimeError)

/-- What a call finds. -/
inductive Answer
  /-- What it awaits is ready. -/
  | ready
  | failed (error : RuntimeError)
  /-- Its context is cancelled. -/
  | cancelled
  | configured (configured : Configured)

/-- What happens beside the calls. -/
inductive Event
  | add (id : ℤ) (name : String) (configured made : RuntimeResult Unit)
  /-- The task of an endpoint has put its client in place. -/
  | subscribed (id : ℤ)
  /-- The task ends. -/
  | ended (id : ℤ) (message : Option String)

namespace Source

/-- A call has the gate. A `start` looks at its context first. -/
def enter : Entry → Bool → Source → Option (Source × (Pc ⊕ Outcome))
  | .start, cancelled, d =>
    if cancelled then none
    else some <|
      match d.phase with
      | .new => ({ d with phase := .started }, .inl (.creatingTopics d.endpoints))
      | .started => (d, .inr (.start (.error (.resourceAlreadyStarted d.name))))
      | _ => (d, .inr (.start (.error (.resourceStopped d.name))))
  | .stop, _, d => some <|
    if d.phase = .stopped then (d, .inr (.stop (.ok ())))
    else ({ d with phase := .stopping }, .inl (.stopNext .stop d.active.reverse none))

/-- A call waits for the gate, and its context is cancelled. A `stop` looks at the gate first. -/
def leave : Entry → Bool → Option Outcome
  | .start, _ => some (.start (.error .contextCancelled))
  | .stop, free => if free then none else some (.stop (.error .contextCancelled))

/-- The start of an endpoint has failed. -/
def rollBack (d : Source) (error : RuntimeError) : Source × (Pc ⊕ Outcome) :=
  ({ d with phase := .stopping }, .inl (.stopNext (.rollback error) d.active.reverse none))

/-- The endpoint is owned, and its `start` is called. -/
def begin (d : Source) (id : ℤ) : Source :=
  { d with
    active := d.active ++ [id]
    starts := d.starts ++ [id] }

/-- The `stop` of an endpoint has returned. -/
def endpointStopped (d : Source) (purpose : Purpose) (id : ℤ) (todo : List ℤ)
    (firstError : Option RuntimeError) : RuntimeResult Unit → Source × (Pc ⊕ Outcome)
  | .ok () =>
    ({ d with
        active := d.active.filter fun active => active ≠ id
        stops := d.stops ++ [id] }, .inl (.stopNext purpose todo firstError))
  | .error error => (d, .inl (.stopNext purpose todo (firstError.or (some error))))

/-- `stop_active_endpoints` has returned. A rollback returns the error of the start. -/
def endpointsStopped (d : Source) : Purpose → Option RuntimeError → Source × (Pc ⊕ Outcome)
  | .stop, none => ({ d with phase := .stopped }, .inr (.stop (.ok ())))
  | .stop, some error => (d, .inr (.stop (.error error)))
  | .rollback error, none => ({ d with phase := .stopped }, .inr (.start (.error error)))
  | .rollback error, some _ => (d, .inr (.start (.error error)))

def proceed : Pc → Answer → Bool → Source → Option (Source × (Pc ⊕ Outcome))
  -- The context is looked at first.
  | .creatingTopics endpoints, .ready, cancelled, d =>
    if cancelled then none else some (d, .inl (.startNext endpoints))
  | .creatingTopics _, .failed error, cancelled, d =>
    if cancelled then none else some ({ d with phase := .new }, .inr (.start (.error error)))
  | .creatingTopics _, .cancelled, cancelled, d =>
    if cancelled then some ({ d with phase := .new }, .inr (.start (.error .contextCancelled)))
    else none
  | .startNext [], .ready, _, d => some (d, .inr (.start (.ok ())))
  | .startNext (id :: todo), .configured configured, _, d => some <|
    match (d.endpoint id).start configured with
    | some (.ok ()) =>
      ({ d.begin id with disabled := d.disabled ++ [id] }, .inl (.startNext todo))
    | some (.error error) => (d.begin id).rollBack error
    | none => (d.begin id, .inl (.starting id .locking todo))
  | .starting id .locking todo, .ready, _, d => some <|
    if (d.endpoint id).task.isSome then
      d.rollBack (.resourceAlreadyStarted (d.endpoint id).name)
    else
      (d.setEndpoint id (d.endpoint id).startConsumer, .inl (.starting id .entering todo))
  -- The client cannot be configured.
  | .starting id .locking _, .failed error, _, d => some <|
    if (d.endpoint id).task.isSome then
      d.rollBack (.resourceAlreadyStarted (d.endpoint id).name)
    else d.rollBack error
  | .starting id .entering todo, .ready, _, d =>
    some (d.setEndpoint id (d.endpoint id).spawn, .inl (.startNext todo))
  | .stopNext purpose [] firstError, .ready, _, d => some (d.endpointsStopped purpose firstError)
  | .stopNext purpose (id :: todo) firstError, .ready, _, d =>
    some (d.setEndpoint id (d.endpoint id).signalStop,
      .inl (.stopping purpose id .locking todo firstError))
  | .stopping purpose id .locking todo firstError, .ready, _, d =>
    some (d.setEndpoint id (d.endpoint id).cancelContext,
      .inl (.stopping purpose id (if (d.endpoint id).task.isSome then .joining else .clearing) todo
        firstError))
  -- The lock is looked at first, but need not be given to a call that has run for long.
  | .stopping purpose id .locking todo firstError, .cancelled, cancelled, d =>
    if cancelled then some (d.endpointStopped purpose id todo firstError (.error .contextCancelled))
    else none
  | .stopping purpose id .joining todo firstError, .ready, _, d =>
    match (d.endpoint id).task with
    | some .finished =>
      some (d.setEndpoint id { d.endpoint id with task := none },
        .inl (.stopping purpose id .clearing todo firstError))
    | some (.panicked message) =>
      some ((d.setEndpoint id { d.endpoint id with task := none }).endpointStopped purpose id todo
        firstError (.error (.transport message)))
    | _ => none
  | .stopping purpose id .joining todo firstError, .cancelled, cancelled, d =>
    if cancelled ∧ (d.endpoint id).task = some .running then
      some (d.endpointStopped purpose id todo firstError (.error .contextCancelled))
    else none
  | .stopping purpose id .clearing todo firstError, .ready, _, d =>
    some (d.setEndpoint id { d.endpoint id with context := none },
      .inl (.stopping purpose id .taking todo firstError))
  | .stopping purpose id .taking todo firstError, .ready, _, d =>
    some ((d.setEndpoint id { d.endpoint id with consumer := false }).endpointStopped purpose id
      todo firstError (.ok ()))
  | _, _, _, _ => none

def awaits : Pc → Bool
  | .startNext _ | .stopNext .. => false
  | _ => true

def background : Event → Source → Option Source
  | .add id name configured made, d => some <|
    match d.addEndpoint id name configured made with
    | .ok d' => d'
    | .error _ => d
  | .subscribed id, d =>
    if (d.endpoint id).task = some .running then
      some (d.setEndpoint id { d.endpoint id with consumer := true })
    else none
  | .ended id message, d =>
    if (d.endpoint id).task = some .running then
      some (d.setEndpoint id { d.endpoint id with task := some (message.elim .finished .panicked) })
    else none

end Source

def protocol (name : String) : Protocol Source Entry Pc Outcome Answer Event where
  init := .new name
  enter := Source.enter
  leave := Source.leave
  proceed := Source.proceed
  awaits := Source.awaits
  background := Source.background

/-! ## Invariants -/

/-- Nothing is left of an endpoint. -/
def Endpoint.Released (e : Endpoint) : Prop :=
  e.task = none ∧ e.context = none ∧ e.consumer = false

def Endpoint.Serving (e : Endpoint) : Prop :=
  e.task.isSome = true ∧ e.context.isSome = true ∧ e.accepting = true

/-- The endpoint was told to stop. -/
def Endpoint.Refusing (e : Endpoint) : Prop := e.stop = true ∧ e.accepting = false

structure Source.Ok (d : Source) : Prop where
  nodup : d.endpoints.Nodup
  starts : d.starts <+: d.endpoints
  active : d.active.Sublist d.starts
  accounted : (d.active ++ d.stops).Perm d.starts
  owned : ∀ id, id ∉ d.active → (d.endpoint id).Released
  refusing : ∀ id ∈ d.stops, (d.endpoint id).Refusing
  new : d.phase = .new → d.starts = []
  opening : d.phase = .new ∨ d.phase = .started →
    d.active = d.starts ∧ ∀ id, (d.endpoint id).stop = false
  closed : d.phase = .stopped → d.active = []

/-- The gate is free. A source that is to be stopped still owns something. -/
def Source.Idle (d : Source) : Prop := d.Ok ∧ (d.phase = .stopping → d.active ≠ [])

/-- An endpoint that was started serves, unless it was disabled. -/
def Source.Serves (d : Source) (id : ℤ) : Prop := id ∈ d.disabled ∨ (d.endpoint id).Serving

/-- What the `stop` of an endpoint has done. A task is only joined after it was told to end. -/
def Endpoint.StopAt (e : Endpoint) : StopPc → Prop
  | .locking => True
  | .joining => e.task.isSome = true ∧ e.context ≠ some false
  | .clearing => e.task = none
  | .taking => e.task = none ∧ e.context = none

/-- Where a call stands. -/
def At : Pc → Source → Prop
  | .creatingTopics endpoints, d =>
    d.Ok ∧ d.phase = .started ∧ endpoints = d.endpoints ∧ d.starts = []
  | .startNext todo, d =>
    d.Ok ∧ d.phase = .started ∧ d.starts ++ todo = d.endpoints ∧ ∀ id ∈ d.starts, d.Serves id
  | .starting id pc todo, d =>
    d.Ok ∧ d.phase = .started ∧ d.starts ++ todo = d.endpoints ∧
      (∃ done, d.starts = done ++ [id] ∧ ∀ other ∈ done, d.Serves other) ∧
      (d.endpoint id).task = none ∧ (pc = .entering → (d.endpoint id).accepting = true)
  | .stopNext _ todo firstError, d =>
    d.Ok ∧ d.phase = .stopping ∧
      ∃ kept, d.active = todo.reverse ++ kept ∧ (firstError = none ↔ kept = [])
  | .stopping _ id pc todo firstError, d =>
    d.Ok ∧ d.phase = .stopping ∧
      (∃ kept, d.active = todo.reverse ++ id :: kept ∧ (firstError = none ↔ kept = [])) ∧
      (d.endpoint id).Refusing ∧ (d.endpoint id).StopAt pc

/-- What a call that returns has done. -/
def Holds : Outcome → Source → Prop
  | .start (.ok ()), d =>
    d.phase = .started ∧ d.starts = d.endpoints ∧ d.active = d.endpoints ∧
      ∀ id ∈ d.endpoints, d.Serves id
  | .start (.error error), d =>
    d.phase = .new ∧ d.starts = [] ∨
      d.phase = .started ∧ error = .resourceAlreadyStarted d.name ∨
      d.phase = .stopping ∧ d.active ≠ [] ∨ d.phase = .stopped
  | .stop (.ok ()), d => d.phase = .stopped
  | .stop (.error _), d => d.phase = .stopping ∧ d.active ≠ []

variable {d d' : Source} {id : ℤ} {todo : List ℤ} {firstError : Option RuntimeError}
  {purpose : Purpose}

theorem Source.setEndpoint_self (d : Source) (id : ℤ) (e : Endpoint) :
    (d.setEndpoint id e).endpoint id = e := Function.update_self ..

theorem Source.setEndpoint_of_ne (d : Source) {id other : ℤ} (e : Endpoint) (h : other ≠ id) :
    (d.setEndpoint id e).endpoint other = d.endpoint other := Function.update_of_ne h ..

namespace Source.Ok

theorem starts_nodup (h : d.Ok) : d.starts.Nodup := h.nodup.sublist h.starts.sublist

theorem active_nodup (h : d.Ok) : d.active.Nodup := h.starts_nodup.sublist h.active

theorem not_mem_stops (h : d.Ok) (hid : id ∈ d.active) : id ∉ d.stops := by
  have hnodup := h.accounted.nodup_iff.mpr h.starts_nodup
  exact fun hs => (List.nodup_append.mp hnodup).2.2 id hid id hs rfl

theorem stops_eq_nil (h : d.Ok) (hphase : d.phase = .new ∨ d.phase = .started) : d.stops = [] := by
  have hlength := h.accounted.length_eq
  rw [List.length_append, (h.opening hphase).1] at hlength
  exact List.eq_nil_of_length_eq_zero (by omega)

/-- Only the owned endpoints change. -/
theorem setEndpoint (h : d.Ok) (hid : id ∈ d.active) {e : Endpoint}
    (hstop : e.stop = (d.endpoint id).stop ∨ d.phase = .stopping) : (d.setEndpoint id e).Ok where
  nodup := h.nodup
  starts := h.starts
  active := h.active
  accounted := h.accounted
  owned other hother := by
    have hne : other ≠ id := fun heq => hother (heq ▸ hid)
    rw [d.setEndpoint_of_ne e hne]
    exact h.owned other hother
  refusing other hother := by
    have hne : other ≠ id := fun heq => h.not_mem_stops hid (heq ▸ hother)
    rw [d.setEndpoint_of_ne e hne]
    exact h.refusing other hother
  new := h.new
  opening hphase := by
    refine ⟨(h.opening hphase).1, fun other => ?_⟩
    by_cases hother : other = id
    · subst hother
      rw [d.setEndpoint_self]
      rcases hstop with hstop | hstop
      · rw [hstop]
        exact (h.opening hphase).2 other
      · rcases hphase with hphase | hphase
        · cases hstop.symm.trans hphase
        · cases hstop.symm.trans hphase
    · rw [d.setEndpoint_of_ne e hother]
      exact (h.opening hphase).2 other
  closed := h.closed

/-- An endpoint that serves or is not owned stays so. -/
theorem running_mem (h : d.Ok) (hrun : (d.endpoint id).task = some .running) : id ∈ d.active := by
  by_contra hid
  cases hrun.symm.trans (h.owned id hid).1

theorem started (h : d.Ok) (hphase : d.phase = .new) : { d with phase := .started : Source }.Ok :=
  { h with
    new := fun hnew => by cases hnew
    opening := fun _ => h.opening (.inl hphase)
    closed := fun hclosed => by cases hclosed }

theorem stopping (h : d.Ok) : { d with phase := .stopping : Source }.Ok :=
  { h with
    new := fun hnew => by cases hnew
    opening := fun hopening => by rcases hopening with hopening | hopening <;> cases hopening
    closed := fun hclosed => by cases hclosed }

theorem stopped (h : d.Ok) (hactive : d.active = []) :
    { d with phase := .stopped : Source }.Ok :=
  { h with
    new := fun hnew => by cases hnew
    opening := fun hopening => by rcases hopening with hopening | hopening <;> cases hopening
    closed := fun _ => hactive }

theorem renew (h : d.Ok) (hphase : d.phase = .started) (hstarts : d.starts = []) :
    { d with phase := .new : Source }.Ok :=
  { h with
    new := fun _ => hstarts
    opening := fun _ => h.opening (.inr hphase)
    closed := fun hclosed => by cases hclosed }

theorem begin (h : d.Ok) (hphase : d.phase = .started)
    (htodo : d.starts ++ id :: todo = d.endpoints) : (d.begin id).Ok where
  nodup := h.nodup
  starts := ⟨todo, (List.append_cons d.starts id todo).symm.trans htodo⟩
  active := h.active.append (List.Sublist.refl [id])
  accounted := by
    have hstops : (d.begin id).stops = [] := h.stops_eq_nil (.inr hphase)
    rw [hstops, List.append_nil]
    show (d.active ++ [id]).Perm (d.starts ++ [id])
    rw [(h.opening (.inr hphase)).1]
  owned other hother := h.owned other fun hmem => hother (List.mem_append_left [id] hmem)
  refusing := h.refusing
  new hnew := by cases hphase.symm.trans hnew
  opening hopening := by
    obtain ⟨hactive, hstop⟩ := h.opening hopening
    exact ⟨by show d.active ++ [id] = d.starts ++ [id]; rw [hactive], hstop⟩
  closed hclosed := by cases hphase.symm.trans hclosed

end Source.Ok

theorem filter_ne {before after : List ℤ} (h : (before ++ id :: after).Nodup) :
    (before ++ id :: after).filter (fun other => other ≠ id) = before ++ after := by
  obtain ⟨hid, hrest⟩ := List.nodup_cons.mp (List.perm_middle.nodup_iff.mp h)
  have hne : ∀ other ∈ before ++ after, other ≠ id := fun other hother heq => hid (heq ▸ hother)
  have hkeep : (before ++ after).filter (fun other => other ≠ id) = before ++ after :=
    List.filter_eq_self.mpr fun other hother => by simpa using hne other hother
  rw [List.filter_append] at hkeep ⊢
  rw [List.filter_cons_of_neg (by simp), hkeep]

/-- An endpoint that has stopped is given up. -/
theorem Source.Ok.retire (h : d.Ok) (hphase : d.phase = .stopping) {before after : List ℤ}
    (hactive : d.active = before ++ id :: after) (hreleased : (d.endpoint id).Released)
    (hrefusing : (d.endpoint id).Refusing) :
    { d with active := before ++ after, stops := d.stops ++ [id] : Source }.Ok where
  nodup := h.nodup
  starts := h.starts
  active := by
    refine List.Sublist.trans ?_ h.active
    rw [hactive]
    exact (List.Sublist.refl before).append (List.sublist_cons_self id after)
  accounted := by
    refine List.Perm.trans ?_ h.accounted
    rw [hactive, List.perm_iff_count]
    intro other
    simp only [List.count_append, List.count_cons, List.count_nil]
    omega
  owned other hother := by
    by_cases hid : other = id
    · exact hid ▸ hreleased
    · refine h.owned other fun hmem => hother ?_
      rw [hactive, List.mem_append, List.mem_cons] at hmem
      rcases hmem with hmem | hmem | hmem
      · exact List.mem_append_left after hmem
      · exact (hid hmem).elim
      · exact List.mem_append_right before hmem
  refusing other hother := by
    rcases List.mem_append.mp hother with hother | hother
    · exact h.refusing other hother
    · exact List.mem_singleton.mp hother ▸ hrefusing
  new hnew := by cases hphase.symm.trans hnew
  opening hopening := by
    rcases hopening with hopening | hopening
    · cases hphase.symm.trans hopening
    · cases hphase.symm.trans hopening
  closed hclosed := by cases hphase.symm.trans hclosed
/-! ## One call -/

/-- What a call does from each place. -/
inductive Proceeds (d : Source) : Pc → Source × (Pc ⊕ Outcome) → Prop
  | topicsCreated (endpoints : List ℤ) :
    Proceeds d (.creatingTopics endpoints) (d, .inl (.startNext endpoints))
  | topicsFailed (endpoints : List ℤ) (error : RuntimeError) :
    Proceeds d (.creatingTopics endpoints)
      ({ d with phase := .new }, .inr (.start (.error error)))
  | started : Proceeds d (.startNext []) (d, .inr (.start (.ok ())))
  | disabled (id : ℤ) (todo : List ℤ) :
    Proceeds d (.startNext (id :: todo))
      ({ d.begin id with disabled := d.disabled ++ [id] }, .inl (.startNext todo))
  | invalid (id : ℤ) (todo : List ℤ) (error : RuntimeError) :
    Proceeds d (.startNext (id :: todo)) ((d.begin id).rollBack error)
  | enabled (id : ℤ) (todo : List ℤ) :
    Proceeds d (.startNext (id :: todo)) (d.begin id, .inl (.starting id .locking todo))
  | locked (id : ℤ) (todo : List ℤ) (htask : (d.endpoint id).task = none) :
    Proceeds d (.starting id .locking todo)
      (d.setEndpoint id (d.endpoint id).startConsumer, .inl (.starting id .entering todo))
  | failed (id : ℤ) (todo : List ℤ) (error : RuntimeError) :
    Proceeds d (.starting id .locking todo) (d.rollBack error)
  | spawned (id : ℤ) (todo : List ℤ) :
    Proceeds d (.starting id .entering todo)
      (d.setEndpoint id (d.endpoint id).spawn, .inl (.startNext todo))
  | endpointsStopped (purpose : Purpose) (firstError : Option RuntimeError) :
    Proceeds d (.stopNext purpose [] firstError) (d.endpointsStopped purpose firstError)
  | signalled (purpose : Purpose) (id : ℤ) (todo : List ℤ) (firstError : Option RuntimeError) :
    Proceeds d (.stopNext purpose (id :: todo) firstError)
      (d.setEndpoint id (d.endpoint id).signalStop,
        .inl (.stopping purpose id .locking todo firstError))
  | stopLocked (purpose : Purpose) (id : ℤ) (todo : List ℤ) (firstError : Option RuntimeError) :
    Proceeds d (.stopping purpose id .locking todo firstError)
      (d.setEndpoint id (d.endpoint id).cancelContext,
        .inl (.stopping purpose id
          (if (d.endpoint id).task.isSome then .joining else .clearing) todo firstError))
  | stopCancelled (purpose : Purpose) (id : ℤ) (pc : StopPc) (todo : List ℤ)
      (firstError : Option RuntimeError) (error : RuntimeError) :
    Proceeds d (.stopping purpose id pc todo firstError)
      (d.endpointStopped purpose id todo firstError (.error error))
  | joined (purpose : Purpose) (id : ℤ) (todo : List ℤ) (firstError : Option RuntimeError) :
    Proceeds d (.stopping purpose id .joining todo firstError)
      (d.setEndpoint id { d.endpoint id with task := none },
        .inl (.stopping purpose id .clearing todo firstError))
  | panicked (purpose : Purpose) (id : ℤ) (todo : List ℤ) (firstError : Option RuntimeError)
      (error : RuntimeError) :
    Proceeds d (.stopping purpose id .joining todo firstError)
      ((d.setEndpoint id { d.endpoint id with task := none }).endpointStopped purpose id todo
        firstError (.error error))
  | cleared (purpose : Purpose) (id : ℤ) (todo : List ℤ) (firstError : Option RuntimeError) :
    Proceeds d (.stopping purpose id .clearing todo firstError)
      (d.setEndpoint id { d.endpoint id with context := none },
        .inl (.stopping purpose id .taking todo firstError))
  | taken (purpose : Purpose) (id : ℤ) (todo : List ℤ) (firstError : Option RuntimeError) :
    Proceeds d (.stopping purpose id .taking todo firstError)
      ((d.setEndpoint id { d.endpoint id with consumer := false }).endpointStopped purpose id todo
        firstError (.ok ()))

theorem proceeds {pc : Pc} {answer : Answer} {cancelled : Bool} {result : Source × (Pc ⊕ Outcome)}
    (h : Source.proceed pc answer cancelled d = some result) : Proceeds d pc result := by
  unfold Source.proceed at h
  split at h
  -- The topics.
  · split_ifs at h
    cases h
    exact .topicsCreated _
  · split_ifs at h
    cases h
    exact .topicsFailed _ _
  · split_ifs at h
    cases h
    exact .topicsFailed _ _
  -- The start of an endpoint.
  · cases h
    exact .started
  · cases h
    split
    · exact .disabled _ _
    · exact .invalid _ _ _
    · exact .enabled _ _
  · cases h
    split_ifs with htask
    · exact .failed _ _ _
    · exact .locked _ _ (Option.not_isSome_iff_eq_none.mp htask)
  · cases h
    split_ifs
    · exact .failed _ _ _
    · exact .failed _ _ _
  · cases h
    exact .spawned _ _
  -- The stop of an endpoint.
  · cases h
    exact .endpointsStopped _ _
  · cases h
    exact .signalled _ _ _ _
  · cases h
    exact .stopLocked _ _ _ _
  · split_ifs at h
    cases h
    exact .stopCancelled _ _ _ _ _ _
  · split at h
    · cases h
      exact .joined _ _ _ _
    · cases h
      exact .panicked _ _ _ _ _
    · cases h
  · split_ifs at h
    cases h
    exact .stopCancelled _ _ _ _ _ _
  · cases h
    exact .cleared _ _ _ _
  · cases h
    exact .taken _ _ _ _
  · cases h

theorem rollBack_ok (h : d.Ok) (error : RuntimeError) :
    AfterOk Source.Idle At Holds (d.rollBack error) :=
  ⟨h.stopping, rfl, [], by rw [List.reverse_reverse, List.append_nil]; rfl, iff_of_true rfl rfl⟩

theorem enter_ok (entry : Entry) (cancelled : Bool) {result : Source × (Pc ⊕ Outcome)}
    (h : d.Idle) (he : Source.enter entry cancelled d = some result) :
    AfterOk Source.Idle At Holds result := by
  cases entry with
  | start =>
    simp only [Source.enter] at he
    split_ifs at he
    cases he
    cases hphase : d.phase with
    | new => exact ⟨h.1.started hphase, rfl, rfl, h.1.new hphase⟩
    | started => exact ⟨h, .inr (.inl ⟨hphase, rfl⟩)⟩
    | stopped => exact ⟨h, .inr (.inr (.inr hphase))⟩
    | stopping => exact ⟨h, .inr (.inr (.inl ⟨hphase, h.2 hphase⟩))⟩
  | stop =>
    simp only [Source.enter, Option.some.injEq] at he
    subst he
    split_ifs with hphase
    · exact ⟨h, hphase⟩
    · exact ⟨h.1.stopping, rfl, [], by rw [List.reverse_reverse, List.append_nil],
        iff_of_true rfl rfl⟩

/-- The endpoint to be started is owned by then, and was not before. -/
theorem begin_ok (h : At (.startNext (id :: todo)) d) :
    (d.begin id).Ok ∧ (d.begin id).starts ++ todo = (d.begin id).endpoints ∧
      (d.endpoint id).task = none := by
  obtain ⟨hok, hphase, htodo, -⟩ := h
  refine ⟨hok.begin hphase htodo, (List.append_cons d.starts id todo).symm.trans htodo, ?_⟩
  refine (hok.owned id fun hmem => ?_).1
  have hnodup := htodo ▸ hok.nodup
  exact (List.nodup_append.mp hnodup).2.2 id (hok.active.subset hmem) id List.mem_cons_self rfl

/-- The endpoint that is being started changes. -/
theorem starting_ok {pc : StartPc} (h : At (.starting id pc todo) d) {e : Endpoint}
    (he : e.stop = (d.endpoint id).stop) : (d.setEndpoint id e).Ok ∧ ∃ done,
      d.starts = done ++ [id] ∧ ∀ other ∈ done, (d.setEndpoint id e).Serves other := by
  obtain ⟨hok, hphase, -, ⟨done, hdone, hserves⟩, -⟩ := h
  have hmem : id ∈ d.active := by
    rw [(hok.opening (.inr hphase)).1, hdone]
    exact List.mem_append_right done List.mem_cons_self
  refine ⟨hok.setEndpoint hmem (.inl he), done, hdone, fun other hother => ?_⟩
  have hne : other ≠ id := by
    have hnodup := hdone ▸ hok.starts_nodup
    exact (List.nodup_append.mp hnodup).2.2 other hother id List.mem_cons_self
  unfold Source.Serves
  rw [d.setEndpoint_of_ne e hne]
  exact hserves other hother

/-- The endpoint that is being stopped changes. -/
theorem stopping_ok {pc pc' : StopPc} (h : At (.stopping purpose id pc todo firstError) d)
    {e : Endpoint} (hrefusing : e.Refusing) (hat : e.StopAt pc') :
    At (.stopping purpose id pc' todo firstError) (d.setEndpoint id e) := by
  obtain ⟨hok, hphase, ⟨kept, hactive, hfirst⟩, -⟩ := h
  have hmem : id ∈ d.active := by
    rw [hactive]
    exact List.mem_append_right _ List.mem_cons_self
  refine ⟨hok.setEndpoint hmem (.inr hphase), hphase, ⟨kept, hactive, hfirst⟩, ?_, ?_⟩
  · rwa [d.setEndpoint_self]
  · rwa [d.setEndpoint_self]

/-- The `stop` of an endpoint has failed, and the endpoint stays. -/
theorem endpointFailed_ok {pc : StopPc} (h : At (.stopping purpose id pc todo firstError) d)
    (error : RuntimeError) :
    AfterOk Source.Idle At Holds (d.endpointStopped purpose id todo firstError (.error error)) := by
  obtain ⟨hok, hphase, ⟨kept, hactive, -⟩, -⟩ := h
  exact ⟨hok, hphase, id :: kept, hactive, iff_of_false (by cases firstError <;> simp) (by simp)⟩

/-- It has succeeded, and the endpoint is given up. -/
theorem endpointStopped_ok (h : At (.stopping purpose id .taking todo firstError) d) :
    AfterOk Source.Idle At Holds
      ((d.setEndpoint id { d.endpoint id with consumer := false }).endpointStopped purpose id todo
        firstError (.ok ())) := by
  have hreleased : ({ d.endpoint id with consumer := false } : Endpoint).Released :=
    ⟨h.2.2.2.2.1, h.2.2.2.2.2, rfl⟩
  have hset : At (.stopping purpose id .taking todo firstError)
      (d.setEndpoint id { d.endpoint id with consumer := false }) :=
    stopping_ok h h.2.2.2.1 h.2.2.2.2
  obtain ⟨hok, hphase, ⟨kept, hactive, hfirst⟩, hrefusing, -⟩ := hset
  have hfilter := filter_ne (hactive ▸ hok.active_nodup)
  have hretire := hok.retire hphase hactive (by rwa [d.setEndpoint_self]) hrefusing
  rw [← hfilter, ← hactive] at hretire
  exact ⟨hretire, hphase, kept, (congrArg _ hactive).trans hfilter, hfirst⟩

theorem endpointsStopped_ok (h : At (.stopNext purpose [] firstError) d) :
    AfterOk Source.Idle At Holds (d.endpointsStopped purpose firstError) := by
  obtain ⟨hok, hphase, kept, hactive, hfirst⟩ := h
  rw [List.reverse_nil, List.nil_append] at hactive
  subst hactive
  cases firstError with
  | none =>
    have hnil := hfirst.mp rfl
    have hidle : Source.Idle { d with phase := .stopped } :=
      ⟨hok.stopped hnil, fun hstopping => by cases hstopping⟩
    cases purpose with
    | rollback error => exact ⟨hidle, .inr (.inr (.inr rfl))⟩
    | stop => exact ⟨hidle, rfl⟩
  | some error =>
    have hne : d.active ≠ [] := fun hnil => by cases hfirst.mpr hnil
    cases purpose with
    | rollback primary => exact ⟨⟨hok, fun _ => hne⟩, .inr (.inr (.inl ⟨hphase, hne⟩))⟩
    | stop => exact ⟨⟨hok, fun _ => hne⟩, hphase, hne⟩

theorem proceed_ok {pc : Pc} {result : Source × (Pc ⊕ Outcome)} (h : At pc d)
    (hp : Proceeds d pc result) : AfterOk Source.Idle At Holds result := by
  cases hp with
  | topicsCreated endpoints =>
    obtain ⟨hok, hphase, rfl, hstarts⟩ := h
    refine ⟨hok, hphase, by rw [hstarts]; rfl, fun id hid => ?_⟩
    rw [hstarts] at hid
    cases hid
  | topicsFailed endpoints error =>
    obtain ⟨hok, hphase, -, hstarts⟩ := h
    exact ⟨⟨hok.renew hphase hstarts, fun hstopping => by cases hstopping⟩, .inl ⟨rfl, hstarts⟩⟩
  | started =>
    obtain ⟨hok, hphase, htodo, hserves⟩ := h
    rw [List.append_nil] at htodo
    refine ⟨⟨hok, fun hstopping => by cases hphase.symm.trans hstopping⟩, hphase, htodo, ?_, ?_⟩
    · rw [(hok.opening (.inr hphase)).1, htodo]
    · exact htodo ▸ hserves
  | disabled id todo =>
    obtain ⟨hbegin, htodo, -⟩ := begin_ok h
    obtain ⟨-, hphase, -, hserves⟩ := h
    refine ⟨{ hbegin with }, hphase, htodo, fun other hother => ?_⟩
    rcases List.mem_append.mp hother with hother | hother
    · exact (hserves other hother).imp_left (List.mem_append_left [id])
    · exact .inl (List.mem_append_right _ hother)
  | invalid id todo error => exact rollBack_ok (begin_ok h).1 error
  | enabled id todo =>
    obtain ⟨hbegin, htodo, htask⟩ := begin_ok h
    obtain ⟨-, hphase, -, hserves⟩ := h
    exact ⟨hbegin, hphase, htodo, ⟨d.starts, rfl, hserves⟩, htask, fun hpc => by cases hpc⟩
  | locked id todo htask =>
    obtain ⟨hset, hdone⟩ := starting_ok h (e := (d.endpoint id).startConsumer) rfl
    refine ⟨hset, h.2.1, h.2.2.1, hdone, ?_, fun _ => ?_⟩
    · rw [d.setEndpoint_self]
      exact htask
    · rw [d.setEndpoint_self]
      rfl
  | failed id todo error => exact rollBack_ok h.1 error
  | spawned id todo =>
    obtain ⟨hset, done, hdone, hserves⟩ := starting_ok h (e := (d.endpoint id).spawn) rfl
    refine ⟨hset, h.2.1, h.2.2.1, fun other hother => ?_⟩
    rcases List.mem_append.mp (show other ∈ done ++ [id] from hdone ▸ hother) with hother | hother
    · exact hserves other hother
    · obtain rfl := List.mem_singleton.mp hother
      refine .inr ?_
      rw [d.setEndpoint_self]
      exact ⟨rfl, rfl, h.2.2.2.2.2 rfl⟩
  | endpointsStopped purpose firstError => exact endpointsStopped_ok h
  | signalled purpose id todo firstError =>
    obtain ⟨hok, hphase, kept, hactive, hfirst⟩ := h
    rw [List.reverse_cons, List.append_assoc, List.singleton_append] at hactive
    have hmem : id ∈ d.active := by
      rw [hactive]
      exact List.mem_append_right _ List.mem_cons_self
    refine ⟨hok.setEndpoint hmem (.inr hphase), hphase, ⟨kept, hactive, hfirst⟩, ?_, trivial⟩
    rw [d.setEndpoint_self]
    exact ⟨rfl, rfl⟩
  | stopLocked purpose id todo firstError =>
    refine stopping_ok h h.2.2.2.1 ?_
    cases htask : (d.endpoint id).task with
    | none => exact htask
    | some task =>
      refine ⟨by rw [Endpoint.cancelContext, htask]; rfl, ?_⟩
      unfold Endpoint.cancelContext
      cases (d.endpoint id).context <;> simp
  | stopCancelled purpose id pc todo firstError error => exact endpointFailed_ok h error
  | joined purpose id todo firstError => exact stopping_ok h h.2.2.2.1 rfl
  | panicked purpose id todo firstError error =>
    have hnext : At (.stopping purpose id .clearing todo firstError)
        (d.setEndpoint id { d.endpoint id with task := none }) := stopping_ok h h.2.2.2.1 rfl
    exact endpointFailed_ok hnext error
  | cleared purpose id todo firstError => exact stopping_ok h h.2.2.2.1 ⟨h.2.2.2.2, rfl⟩
  | taken purpose id todo firstError => exact endpointStopped_ok h

/-! ## Events -/

/-- An event touches an endpoint whose task runs, or registers one with a source that was not
started. -/
theorem background_cases {b : Event} (h : Source.background b d = some d') :
    d' = d ∨
    (∃ id e, d' = d.setEndpoint id e ∧ (d.endpoint id).task = some .running ∧
      e.task.isSome = true ∧ e.context = (d.endpoint id).context ∧
      e.stop = (d.endpoint id).stop ∧ e.accepting = (d.endpoint id).accepting) ∨
    d.phase = .new ∧ ∃ id name, id ∉ d.endpoints ∧
      d' = { d.setEndpoint id (.new name) with endpoints := d.endpoints ++ [id] } := by
  cases b with
  | add id name configured made =>
    simp only [Source.background, Option.some.injEq] at h
    subst h
    split
    · rename_i d' hadd
      unfold Source.addEndpoint at hadd
      cases configured with
      | error error => cases hadd
      | ok =>
        by_cases hphase : d.phase = .new
        · by_cases hid : id ∈ d.endpoints
          · simp [hphase, hid, bind, Except.bind, throw, throwThe, MonadExceptOf.throw] at hadd
          · cases made with
            | error error =>
              simp [hphase, hid, bind, Except.bind] at hadd
            | ok =>
              simp only [hphase, hid, bind, Except.bind, pure, Except.pure, ne_eq,
                not_true_eq_false, if_false, Except.ok.injEq] at hadd
              exact .inr (.inr ⟨hphase, id, name, hid, hadd.symm⟩)
        · simp [hphase, bind, Except.bind, throw, throwThe, MonadExceptOf.throw] at hadd
    · exact .inl rfl
  | subscribed id =>
    simp only [Source.background] at h
    split_ifs at h with hrun
    cases h
    exact .inr (.inl ⟨id, _, rfl, hrun, by rw [hrun]; rfl, rfl, rfl, rfl⟩)
  | ended id message =>
    simp only [Source.background] at h
    split_ifs at h with hrun
    cases h
    exact .inr (.inl ⟨id, _, rfl, hrun, rfl, rfl, rfl, rfl⟩)

theorem Source.Ok.add (h : d.Ok) (hphase : d.phase = .new) (hid : id ∉ d.endpoints)
    (name : String) :
    ({ d.setEndpoint id (.new name) with endpoints := d.endpoints ++ [id] } : Source).Ok where
  nodup := by
    refine List.nodup_append.mpr ⟨h.nodup, List.nodup_singleton id, fun other hother x hx heq => ?_⟩
    rw [List.mem_singleton] at hx
    exact hid (hx ▸ heq ▸ hother)
  starts := h.starts.trans (List.prefix_append ..)
  active := h.active
  accounted := h.accounted
  owned other hother := by
    by_cases heq : other = id
    · subst heq
      show ((d.setEndpoint other (.new name)).endpoint other).Released
      rw [d.setEndpoint_self]
      exact ⟨rfl, rfl, rfl⟩
    · show ((d.setEndpoint id (.new name)).endpoint other).Released
      rw [d.setEndpoint_of_ne _ heq]
      exact h.owned other hother
  refusing other hother := by
    change other ∈ d.stops at hother
    rw [h.stops_eq_nil (.inl hphase)] at hother
    cases hother
  new := h.new
  opening hopening := by
    refine ⟨(h.opening hopening).1, fun other => ?_⟩
    show ((d.setEndpoint id (.new name)).endpoint other).stop = false
    by_cases heq : other = id
    · subst heq
      rw [d.setEndpoint_self]
      rfl
    · rw [d.setEndpoint_of_ne _ heq]
      exact (h.opening hopening).2 other
  closed := h.closed

theorem free_ok {b : Event} (h : d.Idle) (hb : Source.background b d = some d') : d'.Idle := by
  rcases background_cases hb with rfl | ⟨id, e, rfl, hrun, -, -, hstop, -⟩ |
    ⟨hphase, id, name, hid, rfl⟩
  · exact h
  · exact ⟨h.1.setEndpoint (h.1.running_mem hrun) (.inl hstop), h.2⟩
  · exact ⟨h.1.add hphase hid name, fun hstopping => by cases hphase.symm.trans hstopping⟩

theorem held_ok (pc : Pc) {b : Event} (h : At pc d) (hb : Source.background b d = some d') :
    At pc d' := by
  have hok : d.Ok ∧ d.phase ≠ .new := by
    cases pc <;> exact ⟨h.1, fun hnew => by cases h.2.1.symm.trans hnew⟩
  rcases background_cases hb with rfl | ⟨id, e, rfl, hrun, htask, hcontext, hstop, haccepting⟩ |
    ⟨hphase, -⟩
  · exact h
  · have hset := hok.1.setEndpoint (hok.1.running_mem hrun) (.inl hstop)
    have hserves : ∀ other, d.Serves other → (d.setEndpoint id e).Serves other := by
      refine fun other hother => hother.imp_right fun hserving => ?_
      by_cases heq : other = id
      · subst heq
        rw [d.setEndpoint_self]
        exact ⟨htask, hcontext ▸ hserving.2.1, haccepting ▸ hserving.2.2⟩
      · rwa [d.setEndpoint_of_ne e heq]
    cases pc with
    | creatingTopics endpoints => exact ⟨hset, h.2⟩
    | startNext todo =>
      obtain ⟨-, hphase, htodo, hall⟩ := h
      exact ⟨hset, hphase, htodo, fun other hother => hserves other (hall other hother)⟩
    | starting other pc todo =>
      obtain ⟨-, hphase, htodo, ⟨done, hdone, hall⟩, hnone, haccepts⟩ := h
      have hne : other ≠ id := by
        rintro rfl
        cases hrun.symm.trans hnone
      rw [← d.setEndpoint_of_ne e hne] at hnone haccepts
      exact ⟨hset, hphase, htodo,
        ⟨done, hdone, fun another hanother => hserves another (hall another hanother)⟩, hnone,
        haccepts⟩
    | stopNext purpose todo firstError => exact ⟨hset, h.2⟩
    | stopping purpose other pc todo firstError =>
      obtain ⟨-, hphase, hkept, hrefusing, hat⟩ := h
      refine ⟨hset, hphase, hkept, ?_⟩
      by_cases heq : other = id
      · subst heq
        rw [d.setEndpoint_self]
        refine ⟨⟨hstop ▸ hrefusing.1, haccepting ▸ hrefusing.2⟩, ?_⟩
        cases pc with
        | locking => trivial
        | joining => exact ⟨htask, hcontext ▸ hat.2⟩
        | clearing => cases hrun.symm.trans hat
        | taking => cases hrun.symm.trans hat.1
      · rw [d.setEndpoint_of_ne e heq]
        exact ⟨hrefusing, hat⟩
  · exact (hok.2 hphase).elim

theorem rules (name : String) : Rules (protocol name) Source.Idle At Holds where
  init := by
    refine ⟨⟨List.nodup_nil, List.prefix_rfl, List.Sublist.refl _, List.Perm.refl _,
      fun _ _ => ⟨rfl, rfl, rfl⟩, fun _ hid => ?_, fun _ => rfl, fun _ => ⟨rfl, fun _ => rfl⟩,
      fun hclosed => ?_⟩, fun hstopping => ?_⟩
    · cases hid
    · cases hclosed
    · cases hstopping
  enter entry cancelled d result h he := enter_ok entry cancelled h he
  proceed pc answer cancelled d result h hp := proceed_ok h (proceeds hp)
  drop pc d h ha := by
    cases pc with
    | creatingTopics endpoints => exact ⟨h.1, fun hs => by cases h.2.1.symm.trans hs⟩
    | startNext todo => cases ha
    | starting id pc todo => exact ⟨h.1, fun hs => by cases h.2.1.symm.trans hs⟩
    | stopNext purpose todo firstError => cases ha
    | stopping purpose id pc todo firstError =>
      obtain ⟨hok, -, ⟨kept, hactive, -⟩, -⟩ := h
      exact ⟨hok, fun _ => by rw [hactive]; simp⟩
  free b d d' h hb := free_ok h hb
  held pc b d d' h hb := held_ok pc h hb
/-! ## Results -/

variable {name : String} {s t : Gate.State Source Entry Pc Outcome}
  {a : Gate.Action Entry Answer Event} {as : List (Gate.Action Entry Answer Event)}

/-- A source that is being stopped starts nothing, and one that was stopped stays so. -/
structure Closes (d d' : Source) : Prop where
  closing : d.phase = .stopping ∨ d.phase = .stopped →
    (d'.phase = .stopping ∨ d'.phase = .stopped) ∧ d'.starts = d.starts
  closed : d.phase = .stopped → d'.phase = .stopped

theorem Closes.of_phase_eq (hphase : d'.phase = d.phase) (hstarts : d'.starts = d.starts) :
    Closes d d' :=
  ⟨fun h => ⟨by rwa [hphase], hstarts⟩, fun h => by rwa [hphase]⟩

/-- Before it is stopped, nothing is asked. -/
theorem Closes.of_started (h : d.phase = .started) : Closes d d' := by
  refine ⟨fun hc => ?_, fun hc => by cases h.symm.trans hc⟩
  rcases hc with hc | hc <;> cases h.symm.trans hc

theorem Closes.of_stopping (h : d.phase = .stopping)
    (hphase : d'.phase = .stopping ∨ d'.phase = .stopped) (hstarts : d'.starts = d.starts) :
    Closes d d' :=
  ⟨fun _ => ⟨hphase, hstarts⟩, fun hc => by cases h.symm.trans hc⟩

theorem Closes.trans {d'' : Source} (h : Closes d d') (h' : Closes d' d'') : Closes d d'' := by
  refine ⟨fun hc => ?_, fun hc => h'.closed (h.closed hc)⟩
  obtain ⟨hphase, hstarts⟩ := h.closing hc
  obtain ⟨hphase', hstarts'⟩ := h'.closing hphase
  exact ⟨hphase', hstarts'.trans hstarts⟩

theorem closes_enter (entry : Entry) (cancelled : Bool) {result : Source × (Pc ⊕ Outcome)}
    (he : Source.enter entry cancelled d = some result) : Closes d result.1 := by
  cases entry with
  | start =>
    simp only [Source.enter] at he
    split_ifs at he
    cases he
    cases hphase : d.phase with
    | new =>
      refine ⟨fun hc => ?_, fun hc => by cases hphase.symm.trans hc⟩
      rcases hc with hc | hc <;> cases hphase.symm.trans hc
    | started => exact .of_started hphase
    | stopped => exact .of_phase_eq rfl rfl
    | stopping => exact .of_phase_eq rfl rfl
  | stop =>
    simp only [Source.enter, Option.some.injEq] at he
    subst he
    split_ifs with hphase
    · exact .of_phase_eq rfl rfl
    · exact ⟨fun _ => ⟨.inl rfl, rfl⟩, fun hc => (hphase hc).elim⟩

theorem endpointStopped_fst (d : Source) (purpose : Purpose) (id : ℤ) (todo : List ℤ)
    (firstError : Option RuntimeError) (result : RuntimeResult Unit) :
    (d.endpointStopped purpose id todo firstError result).1.phase = d.phase ∧
      (d.endpointStopped purpose id todo firstError result).1.starts = d.starts := by
  cases result <;> exact ⟨rfl, rfl⟩

theorem closes_proceed {pc : Pc} {result : Source × (Pc ⊕ Outcome)} (h : At pc d)
    (hp : Proceeds d pc result) : Closes d result.1 := by
  have hstopped : ∀ (d₁ : Source) {purpose id todo firstError r}, d₁.phase = d.phase →
      d₁.starts = d.starts → Closes d (d₁.endpointStopped purpose id todo firstError r).1 := by
    intro d₁ purpose id todo firstError r hphase hstarts
    obtain ⟨hp, hs⟩ := endpointStopped_fst d₁ purpose id todo firstError r
    exact .of_phase_eq (hp.trans hphase) (hs.trans hstarts)
  cases hp with
  | endpointsStopped purpose firstError =>
    cases purpose <;> cases firstError
    · exact .of_stopping h.2.1 (.inr rfl) rfl
    · exact .of_phase_eq rfl rfl
    · exact .of_stopping h.2.1 (.inr rfl) rfl
    · exact .of_phase_eq rfl rfl
  | signalled purpose id todo firstError => exact .of_phase_eq rfl rfl
  | stopLocked purpose id todo firstError => exact .of_phase_eq rfl rfl
  | stopCancelled purpose id pc todo firstError error => exact hstopped d rfl rfl
  | joined purpose id todo firstError => exact .of_phase_eq rfl rfl
  | panicked purpose id todo firstError error => exact hstopped _ rfl rfl
  | cleared purpose id todo firstError => exact .of_phase_eq rfl rfl
  | taken purpose id todo firstError => exact hstopped _ rfl rfl
  | _ => exact .of_started h.2.1

/-- What a run does to the source. -/
theorem closes_run (hs : s.Ok Source.Idle At) (hr : (protocol name).system.run s as = some t) :
    Closes s.data t.data :=
  (rules name).run_rel (fun _ => .of_phase_eq rfl rfl) (fun _ _ _ h h' => h.trans h')
    (fun entry cancelled _ _ _ he => closes_enter entry cancelled he)
    (fun _ _ _ _ _ h hp => closes_proceed h (proceeds hp))
    (fun b _ _ hb => by
      rcases background_cases hb with rfl | ⟨id, e, rfl, -⟩ | ⟨-, id, name, -, rfl⟩
      · exact .of_phase_eq rfl rfl
      · exact .of_phase_eq rfl rfl
      · exact .of_phase_eq rfl rfl) hs hr

/-! ### Runs -/

/-- An endpoint is registered and started. -/
def serving : List (Gate.Action Entry Answer Event) :=
  [.background (.add 1 "events" (.ok ()) (.ok ())), .call 0 .start, .enter 0, .proceed 0 .ready,
    .proceed 0 (.configured .enabled), .proceed 0 .ready, .proceed 0 .ready]

theorem serving_runs :
    ((protocol "kafka").system.run (protocol "kafka").system.init serving).isSome := by
  decide +kernel

/-- The start of the endpoint is dropped, with its consumer started. -/
def abandoned : List (Gate.Action Entry Answer Event) :=
  [.background (.add 1 "events" (.ok ()) (.ok ())), .call 0 .start, .enter 0, .proceed 0 .ready,
    .proceed 0 (.configured .enabled), .proceed 0 .ready, .drop 0]

theorem abandoned_runs :
    ((protocol "kafka").system.run (protocol "kafka").system.init abandoned).isSome := by
  decide +kernel

/-- The endpoint is stopped, and its task ends. -/
def stopped : List (Gate.Action Entry Answer Event) :=
  serving ++ [.proceed 0 .ready, .call 1 .stop, .enter 1, .proceed 1 .ready, .proceed 1 .ready,
    .background (.ended 1 none), .proceed 1 .ready, .proceed 1 .ready, .proceed 1 .ready,
    .proceed 1 .ready]

theorem stopped_runs :
    ((protocol "kafka").system.run (protocol "kafka").system.init stopped).isSome := by
  decide +kernel

/-! ### What was started -/

theorem data_ok (h : (protocol name).system.Reachable s) : s.data.Ok :=
  ((rules name).ok h).data (fun _ hd => hd.1) fun pc _ hd => by cases pc <;> exact hd.1

/-- **Nothing is lost.** In every reachable state, whichever calls were dropped or failed, every
endpoint whose start was called is owned by the source or was stopped, and each once. The starts
follow the order of registration, what is owned follows the order of the starts, and an endpoint
that has a task, a context or a client is owned. -/
theorem started_accounted (h : (protocol name).system.Reachable s) :
    (s.data.active ++ s.data.stops).Perm s.data.starts ∧ s.data.starts.Nodup ∧
      s.data.starts <+: s.data.endpoints ∧ s.data.active.Sublist s.data.starts ∧
      ∀ id, ¬ (s.data.endpoint id).Released → id ∈ s.data.active := by
  have hok := data_ok h
  refine ⟨hok.accounted, hok.starts_nodup, hok.starts, hok.active, fun id hid => ?_⟩
  by_contra hmem
  exact hid (hok.owned id hmem)

/-- The abandoned endpoint is owned. -/
theorem started_accounted_abandoned :
    ∃ s : Gate.State Source Entry Pc Outcome, s.data.starts = [1] ∧ s.gate = none ∧
      (s.data.active ++ s.data.stops).Perm s.data.starts ∧ s.data.starts.Nodup ∧
      s.data.starts <+: s.data.endpoints ∧ s.data.active.Sublist s.data.starts ∧
      ∀ id, ¬ (s.data.endpoint id).Released → id ∈ s.data.active :=
  ⟨_, rfl, rfl, started_accounted (System.reachable_get abandoned_runs)⟩

/-! ### What results say -/

/-- **The results are right.** Whenever a call returns, its result says what it has done (`Holds`),
or its context was cancelled while it waited for the gate, and it has done nothing. -/
theorem call_returned (h : (protocol name).system.Reachable s)
    (hs : (protocol name).system.step s a = some t) {c : ℕ} {r : Outcome}
    (hc : s.calls c ≠ some (.returned r)) (hr : t.calls c = some (.returned r)) :
    Holds r t.data ∨ t.data = s.data ∧ s.cancelled c = true ∧
      (r = .start (.error .contextCancelled) ∨ r = .stop (.error .contextCancelled)) := by
  rcases (rules name).returned ((rules name).ok h) hs hc hr with hleave | hholds
  · obtain ⟨hdata, entry, -, hcancelled, hleave⟩ := hleave
    refine .inr ⟨hdata, hcancelled, ?_⟩
    cases entry with
    | start =>
      simp only [protocol, Source.leave, Option.some.injEq] at hleave
      exact .inl hleave.symm
    | stop =>
      simp only [protocol, Source.leave] at hleave
      split_ifs at hleave
      rw [Option.some.injEq] at hleave
      exact .inr hleave.symm
  · exact .inl hholds

/-- The start of the endpoint succeeds. -/
theorem call_returned_serving : ∃ t : Gate.State Source Entry Pc Outcome,
    t.calls 0 = some (.returned (.start (.ok ()))) ∧ Holds (.start (.ok ())) t.data := by
  obtain ⟨s, hs, hc⟩ : ∃ s, (protocol "kafka").system.Reachable s ∧
      s.calls 0 = some (.inside (.startNext [])) := ⟨_, System.reachable_get serving_runs, rfl⟩
  have ht : (protocol "kafka").system.step s (.proceed 0 .ready) =
      some (s.after 0 (s.data, .inr (.start (.ok ())))) := by
    simp only [Protocol.system, Protocol.step, hc]
    rfl
  have hr : (s.after 0 (s.data, .inr (.start (.ok ())))).calls 0 =
      some (.returned (.start (.ok ()))) := s.setCall_self 0 _
  refine ⟨_, hr, ?_⟩
  rcases call_returned hs ht (by rw [hc]; simp) hr with hholds | hleft
  · exact hholds
  · simp at hleft

/-! ### After the stop -/

theorem stop_succeeded (h : (protocol name).system.Reachable s) {c : ℕ}
    (hc : s.calls c = some (.returned (.stop (.ok ())))) : s.data.phase = .stopped := by
  have hinv : s.Ok Source.Idle At ∧
      ∀ c, s.calls c = some (.returned (.stop (.ok ()))) → s.data.phase = .stopped := by
    refine h.invariant (I := fun s => s.Ok Source.Idle At ∧
        ∀ c, s.calls c = some (.returned (.stop (.ok ()))) → s.data.phase = .stopped)
      ⟨(rules name).ok .init, fun c hc => by cases hc⟩ fun s a t hi ht => ?_
    refine ⟨(rules name).ok_step hi.1 ht, fun c hc => ?_⟩
    by_cases hold : s.calls c = some (.returned (.stop (.ok ())))
    · exact (closes_run hi.1 (System.run_singleton ht)).closed (hi.2 c hold)
    · rcases (rules name).returned hi.1 ht hold hc with hleave | hholds
      · obtain ⟨-, entry, -, -, hleave⟩ := hleave
        cases entry <;> simp [protocol, Source.leave] at hleave
      · exact hholds
  exact hinv.2 c hc

/-- **Stopped means released.** Once a `stop` has succeeded, or a rollback is complete, in every
state after that nothing is owned, every endpoint is released, all that were started were told to
stop and refuse messages, and none is started again. -/
theorem stopped_released (h : (protocol name).system.Reachable s)
    (hs : s.data.phase = .stopped ∨ ∃ c, s.calls c = some (.returned (.stop (.ok ()))))
    (hr : (protocol name).system.run s as = some t) :
    t.data.phase = .stopped ∧ t.data.active = [] ∧ t.data.starts = s.data.starts ∧
      (∀ id, (t.data.endpoint id).Released) ∧
      ∀ id ∈ t.data.starts, (t.data.endpoint id).Refusing := by
  have hphase : s.data.phase = .stopped := by
    rcases hs with hs | ⟨c, hc⟩
    · exact hs
    · exact stop_succeeded h hc
  have hcloses := closes_run ((rules name).ok h) hr
  have hok := data_ok (h.run hr)
  have hstopped := hcloses.closed hphase
  have hactive := hok.closed hstopped
  refine ⟨hstopped, hactive, (hcloses.closing (.inr hphase)).2, fun id => hok.owned id ?_,
    fun id hid => hok.refusing id ?_⟩
  · rw [hactive]
    exact List.not_mem_nil
  · have hperm := hok.accounted
    rw [hactive, List.nil_append] at hperm
    exact hperm.mem_iff.mpr hid

/-- The endpoint of the run stays released. -/
theorem stopped_released_run : ∃ s : Gate.State Source Entry Pc Outcome, s.data.starts = [1] ∧
    ∀ as t, (protocol "kafka").system.run s as = some t →
      t.data.phase = .stopped ∧ t.data.active = [] ∧ t.data.starts = s.data.starts ∧
        (∀ id, (t.data.endpoint id).Released) ∧
        ∀ id ∈ t.data.starts, (t.data.endpoint id).Refusing :=
  ⟨_, rfl, fun _ _ hr => stopped_released (System.reachable_get stopped_runs) (.inr ⟨1, rfl⟩) hr⟩

/-! ### A stop is possible -/

section Progress

variable (name : String) (cancelled : Bool) (purpose : Purpose) (todo : List ℤ)
  (firstError : Option RuntimeError)

/-- What the `stop` of an endpoint leaves. -/
structure Ended (id : ℤ) (d d' : Source) : Prop where
  others : ∀ other, other ≠ id → d'.endpoint other = d.endpoint other
  active : ∀ other ∈ d'.active, other ∈ d.active
  none : id ∈ d'.active → (d'.endpoint id).task = none

theorem Ended.setEndpoint {e : Endpoint} (h : Ended id (d.setEndpoint id e) d') :
    Ended id d d' where
  others other hne := (h.others other hne).trans (d.setEndpoint_of_ne e hne)
  active := h.active
  none := h.none

theorem clear_path (id : ℤ) (d : Source) : ∃ d',
    (protocol name).Path cancelled (.stopping purpose id .clearing todo firstError) d
      (.stopNext purpose todo firstError) d' ∧ Ended id d d' := by
  refine ⟨_, .proceed .ready rfl (.proceed .ready rfl (.refl _ _)), ?_⟩
  refine Ended.setEndpoint (Ended.setEndpoint ⟨fun other _ => rfl, fun other hother => ?_,
    fun hid => ?_⟩)
  · exact (List.mem_filter.mp hother).1
  · simp at hid

theorem join_path {id : ℤ} {d : Source} {task : Task} (htask : (d.endpoint id).task = some task) :
    ∃ d' firstError',
      (protocol name).Path cancelled (.stopping purpose id .joining todo firstError) d
        (.stopNext purpose todo firstError') d' ∧
      Ended id d d' ∧ ((∀ message, task ≠ .panicked message) → firstError' = firstError) := by
  -- A task that has ended is joined.
  have hfinished : ∀ d : Source, (d.endpoint id).task = some .finished → ∃ d',
      (protocol name).Path cancelled (.stopping purpose id .joining todo firstError) d
        (.stopNext purpose todo firstError) d' ∧ Ended id d d' := by
    intro d hd
    obtain ⟨d', hpath, hended⟩ := clear_path name cancelled purpose todo firstError id
      (d.setEndpoint id { d.endpoint id with task := none })
    refine ⟨d', .proceed .ready ?_ hpath, hended.setEndpoint⟩
    simp only [protocol, Source.proceed, hd]
  cases task with
  | finished =>
    obtain ⟨d', hpath, hended⟩ := hfinished d htask
    exact ⟨d', firstError, hpath, hended, fun _ => rfl⟩
  | running =>
    obtain ⟨d', hpath, hended⟩ :=
      hfinished (d.setEndpoint id { d.endpoint id with task := some .finished })
        (by rw [d.setEndpoint_self])
    refine ⟨d', firstError, .background (.ended id none) ?_ hpath, hended.setEndpoint,
      fun _ => rfl⟩
    simp only [protocol, Source.background, htask, if_true]
    rfl
  | panicked message =>
    refine ⟨d.setEndpoint id { d.endpoint id with task := none },
      firstError.or (some (.transport message)), .proceed .ready ?_ (.refl _ _), ?_,
      fun hne => (hne message rfl).elim⟩
    · simp only [protocol, Source.proceed, htask]
      rfl
    · exact Ended.setEndpoint ⟨fun _ _ => rfl, fun _ hother => hother, fun _ => by
        rw [d.setEndpoint_self]⟩

/-- An endpoint can be stopped. Only a task that has panicked makes it fail. -/
theorem stop_path (id : ℤ) (d : Source) : ∃ d' firstError',
    (protocol name).Path cancelled (.stopNext purpose (id :: todo) firstError) d
      (.stopNext purpose todo firstError') d' ∧
    Ended id d d' ∧
      ((∀ message, (d.endpoint id).task ≠ some (.panicked message)) →
        firstError' = firstError) := by
  -- The endpoint is told to stop, and its task is locked.
  have hsignal := d.setEndpoint_self id (d.endpoint id).signalStop
  cases htask : (d.endpoint id).task with
  | none =>
    obtain ⟨d', hpath, hended⟩ := clear_path name cancelled purpose todo firstError id
      ((d.setEndpoint id (d.endpoint id).signalStop).setEndpoint id
        (d.endpoint id).signalStop.cancelContext)
    refine ⟨d', firstError, .proceed .ready rfl (.proceed .ready ?_ hpath),
      hended.setEndpoint.setEndpoint, fun _ => rfl⟩
    simp only [protocol, Source.proceed, hsignal]
    rw [show (d.endpoint id).signalStop.task = none from htask]
    rfl
  | some task =>
    have htask' : (((d.setEndpoint id (d.endpoint id).signalStop).setEndpoint id
        (d.endpoint id).signalStop.cancelContext).endpoint id).task = some task := by
      rw [Source.setEndpoint_self]
      exact htask
    obtain ⟨d', firstError', hpath, hended, hfirst⟩ :=
      join_path name cancelled purpose todo firstError htask'
    refine ⟨d', firstError', .proceed .ready rfl (.proceed .ready ?_ hpath),
      hended.setEndpoint.setEndpoint, fun hne => hfirst fun message heq => ?_⟩
    · simp only [protocol, Source.proceed, hsignal]
      rw [show (d.endpoint id).signalStop.task = some task from htask]
      rfl
    · exact hne message (by rw [heq])

/-- One pass over the owned endpoints. -/
theorem pass_path {d : Source} (hnodup : todo.Nodup)
    (hrest : ∀ other ∈ d.active, other ∉ todo → (d.endpoint other).task = none) :
    ∃ d' firstError', (protocol name).Path cancelled (.stopNext purpose todo firstError) d
        (.stopNext purpose [] firstError') d' ∧
      (∀ other ∈ d'.active, (d'.endpoint other).task = none) ∧
      ((∀ id ∈ todo, ∀ message, (d.endpoint id).task ≠ some (.panicked message)) →
        firstError' = firstError) := by
  induction todo generalizing firstError d with
  | nil => exact ⟨d, firstError, .refl _ _, fun other hother => hrest other hother List.not_mem_nil,
      fun _ => rfl⟩
  | cons id todo ih =>
    obtain ⟨hid, hnodup⟩ := List.nodup_cons.mp hnodup
    obtain ⟨d₁, first₁, hpath₁, hended, hfirst₁⟩ :=
      stop_path name cancelled purpose todo firstError id d
    have hrest₁ : ∀ other ∈ d₁.active, other ∉ todo → (d₁.endpoint other).task = none := by
      intro other hother htodo
      by_cases heq : other = id
      · exact heq ▸ hended.none (heq ▸ hother)
      · rw [hended.others other heq]
        refine hrest other (hended.active other hother) fun hmem => ?_
        exact (List.mem_cons.mp hmem).elim heq htodo
    obtain ⟨d', first', hpath, hnone, hfirst⟩ := ih first₁ hnodup hrest₁
    refine ⟨d', first', hpath₁.trans hpath, hnone, fun hall => ?_⟩
    rw [hfirst fun other hother message => ?_, hfirst₁ (hall id List.mem_cons_self)]
    have hne : other ≠ id := fun heq => hid (heq ▸ hother)
    rw [hended.others other hne]
    exact hall other (List.mem_cons_of_mem id hother) message

/-- One call of `stop`. -/
theorem stop_call {name : String} (hok : s.Ok Source.Idle At) (hg : s.gate = none) {c : ℕ}
    (hc : s.calls c = none) : ∃ as t, (protocol name).system.run s as = some t ∧
      t.Ok Source.Idle At ∧ t.gate = none ∧ (∀ c', c' ≠ c → t.calls c' = s.calls c') ∧
      (t.calls c = some (.returned (.stop (.ok ()))) ∨
        (∀ id ∈ t.data.active, (t.data.endpoint id).task = none) ∧
          ¬ ∀ id ∈ s.data.active, ∀ message,
            (s.data.endpoint id).task ≠ some (.panicked message)) := by
  have hokrun : ∀ {as t}, (protocol name).system.run s as = some t → t.Ok Source.Idle At :=
    fun hr => System.run_invariant (I := Gate.State.Ok Source.Idle At)
      (fun _ _ _ hi ht => (rules name).ok_step hi ht) hok hr
  -- The call is made, and gets the gate.
  have hcall : (protocol name).system.step s (.call c .stop) =
      some (s.setCall c (.waiting .stop)) := by
    simp only [Protocol.system, Protocol.step, hc, Option.isNone_none, if_true]
  have henter : ∀ result, Source.enter .stop (s.cancelled c) s.data = some result →
      (protocol name).system.run s [.call c .stop, .enter c] =
        some ((s.setCall c (.waiting .stop)).after c result) := by
    intro result he
    refine Option.bind_eq_some_iff.mpr ⟨_, hcall, System.run_singleton ?_⟩
    simp only [Protocol.system, Protocol.step, Gate.State.setCall_gate, hg, Gate.State.setCall_self]
    exact Option.map_eq_some_iff.mpr ⟨result, he, rfl⟩
  by_cases hphase : s.data.phase = .stopped
  · have hr := henter (s.data, .inr (.stop (.ok ()))) (by simp only [Source.enter, hphase, if_true])
    refine ⟨_, _, hr, hokrun hr, rfl, fun c' hne => ?_, .inl (Gate.State.setCall_self ..)⟩
    rw [Gate.State.after_of_ne _ _ hne, Gate.State.setCall_of_ne _ _ hne]
  · obtain ⟨v, hr, hcv, hdv, hv⟩ : ∃ v : Gate.State Source Entry Pc Outcome,
        (protocol name).system.run s [.call c .stop, .enter c] = some v ∧
        v.calls c = some (.inside (.stopNext .stop s.data.active.reverse none)) ∧
        v.data = { s.data with phase := .stopping } ∧
        ∀ c', c' ≠ c → v.calls c' = s.calls c' := by
      refine ⟨_, henter ({ s.data with phase := .stopping },
        .inl (.stopNext .stop s.data.active.reverse none)) ?_, Gate.State.setCall_self .., rfl,
        fun c' hne => ?_⟩
      · simp only [Source.enter, hphase, if_false]
      · rw [Gate.State.after_of_ne _ _ hne, Gate.State.setCall_of_ne _ _ hne]
    have hnodup : s.data.active.Nodup := (hok.free hg).1.active_nodup
    have hrest : ∀ other ∈ s.data.active, other ∉ s.data.active.reverse →
        (s.data.endpoint other).task = none :=
      fun other hother hnot => (hnot (List.mem_reverse.mpr hother)).elim
    obtain ⟨d', firstError, hpath, hnone, hfirst⟩ := pass_path name (v.cancelled c) .stop _ none
      (d := { s.data with phase := .stopping }) (List.nodup_reverse.mpr hnodup) hrest
    obtain ⟨as, u, hru, hcu, hdu, -, hothers⟩ := hpath.run hcv hdv
    have hlast : (protocol name).system.step u (.proceed c .ready) =
        some (u.after c (d'.endpointsStopped .stop firstError)) := by
      simp only [Protocol.system, Protocol.step, hcu, hdu]
      rfl
    have hrun := System.run_trans (System.run_trans hr hru) (System.run_singleton hlast)
    refine ⟨_, _, hrun, hokrun hrun, ?_, fun c' hne => ?_, ?_⟩
    · cases firstError <;> rfl
    · rw [Gate.State.after_of_ne _ _ hne, hothers c' hne, hv c' hne]
    · cases firstError with
      | none => exact .inl (Gate.State.setCall_self ..)
      | some error =>
        refine .inr ⟨hnone, fun hall => ?_⟩
        cases hfirst fun id hid message => hall id (List.mem_reverse.mp hid) message

/-- **A stop is always possible.** In every reachable state whose gate is free, however the calls so
far were dropped or have failed, there is a run in which no call moves but two new ones at most, and
after which a `stop` has succeeded. -/
theorem stop_possible {name : String} (h : (protocol name).system.Reachable s)
    (hg : s.gate = none) :
    ∃ c c' as t, (protocol name).system.run s as = some t ∧
      t.calls c' = some (.returned (.stop (.ok ()))) ∧ t.data.phase = .stopped ∧
      ∀ other, other ≠ c → other ≠ c' → t.calls other = s.calls other := by
  obtain ⟨n, hn⟩ := Protocol.fresh h
  obtain ⟨as, u, hr, hok, hgu, hothers, hend⟩ :=
    stop_call ((rules name).ok h) hg (hn n le_rfl)
  rcases hend with hend | ⟨hnone, -⟩
  · exact ⟨n, n, as, u, hr, hend, stop_succeeded (h.run hr) hend,
      fun other hne _ => hothers other hne⟩
  · -- No task is left that could fail the second call.
    have hne : n + 1 ≠ n := Nat.succ_ne_self n
    obtain ⟨bs, t, hrt, -, -, hothers', hend⟩ := stop_call hok hgu
      ((hothers (n + 1) hne).trans (hn (n + 1) (Nat.le_succ n)))
    have hrun := System.run_trans hr hrt
    have hsucceeded := hend.resolve_right fun hfail => hfail.2 fun id hid message heq => by
      cases (hnone id hid).symm.trans heq
    refine ⟨n, n + 1, as ++ bs, t, hrun, hsucceeded, stop_succeeded (h.run hrun) hsucceeded,
      fun other hn hn' => ?_⟩
    rw [hothers' other hn', hothers other hn]

/-- After an abandoned start. -/
theorem stop_possible_abandoned : ∃ s : Gate.State Source Entry Pc Outcome, s.data.active = [1] ∧
    ∃ c c' as t, (protocol "kafka").system.run s as = some t ∧
      t.calls c' = some (.returned (.stop (.ok ()))) ∧ t.data.phase = .stopped ∧
      ∀ other, other ≠ c → other ≠ c' → t.calls other = s.calls other :=
  ⟨_, rfl, stop_possible (System.reachable_get abandoned_runs) rfl⟩

end Progress

end KafkaSource

end ServiceLib
