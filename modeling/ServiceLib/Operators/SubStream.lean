import ServiceLib.Runtime.Error
import ServiceLib.Transition

/-!
# Calls into a `SubStream`

Follows `src/operators/substream.rs` and the local values of `MessageContext` in
`src/runtime/common.rs`. `consume` creates a `Call`, binds it in the context it emits with, and
waits until a collector has accepted a result or the caller is cancelled; a result finds its call
by walking the context, and is delivered under the call's `gate`.

A context is its own derivation, so `nearest` can say which invocation encloses it without
mentioning the chain of bindings that `local_value` walks. Calls and deliveries are one transition
system: the atomic accesses of `deliver`, `dispatch` and `close` are separate actions, and every
future may be dropped where it is suspended.
-/

namespace ServiceLib

namespace SubStream

/-! ## Contexts -/

/-- What a local value is bound to: the key of a `SubStream`, or some other `ContextKey`. -/
inductive Key
  | subStream (id : ℕ)
  | other (id : ℕ)
  deriving DecidableEq

/-- `LocalContextValue`; a value is an identity. -/
structure LocalContextValue where
  key : Key
  value : ℕ
  deriving DecidableEq

/-- A `MessageContext`, as the sequence of operations that made it. Tokens are the cancellation
tokens that were created on the way. -/
inductive Context
  /-- `MessageContext::new` and the constructors with a deadline. -/
  | new (token : ℕ)
  /-- `child`. -/
  | child (parent : Context) (token : ℕ)
  /-- Metadata, spans, priorities: everything that keeps token and local values. -/
  | derived (parent : Context)
  /-- `with_local_value` with the key of another component. -/
  | bound (parent : Context) (key value : ℕ)
  /-- The dispatch context of an invocation. -/
  | inside (caller : Context) (subStream call : ℕ)
  deriving DecidableEq

namespace Context

/-- The field `local_values`, innermost first. -/
def localValues : Context → List LocalContextValue
  | .new _ => []
  | .child parent _ => parent.localValues
  | .derived parent => parent.localValues
  | .bound parent key value => ⟨.other key, value⟩ :: parent.localValues
  | .inside caller subStream call => ⟨.subStream subStream, call⟩ :: caller.localValues

/-- The loop of `MessageContext::local_value`. -/
def findLocal (key : Key) : List LocalContextValue → Option ℕ
  | [] => none
  | binding :: parent => if binding.key = key then some binding.value else findLocal key parent

/-- `MessageContext::local_value`. -/
def localValue (context : Context) (key : Key) : Option ℕ := findLocal key context.localValues

/-- The tokens whose cancellation cancels this context; a deadline that passes counts as the
cancellation of the token it was attached to. -/
def tokens : Context → List ℕ
  | .new token => [token]
  | .child parent token => token :: parent.tokens
  | .derived parent => parent.tokens
  | .bound parent _ _ => parent.tokens
  | .inside caller _ _ => caller.tokens

/-- The nearest invocation of a `SubStream` that encloses the context. -/
def nearest (subStream : ℕ) : Context → Option ℕ
  | .new _ => none
  | .child parent _ => parent.nearest subStream
  | .derived parent => parent.nearest subStream
  | .bound parent _ _ => parent.nearest subStream
  | .inside caller id call => if id = subStream then some call else caller.nearest subStream

/-- The chain of bindings finds the nearest enclosing invocation. -/
theorem localValue_eq_nearest (context : Context) (subStream : ℕ) :
    context.localValue (.subStream subStream) = context.nearest subStream := by
  induction context with
  | new token => rfl
  | child parent token ih => exact ih
  | derived parent ih => exact ih
  | bound parent key value ih =>
    rw [nearest, ← ih]
    simp [localValue, localValues, findLocal]
  | inside caller id call ih =>
    rw [nearest, ← ih]
    simp [localValue, localValues, findLocal]

end Context

/-! ## State -/

/-- What `build` reads of a `SubStream`. -/
structure SubStreamInner where
  name : String
  /-- `stream.link_collector().is_some()` -/
  linked : Bool
  /-- `source.get().is_some()` -/
  source : Bool
  serviceId : ℤ
  /-- `environment().service_id()` -/
  environmentServiceId : Option ℤ

/-- `SubStreamInner::build`. -/
def SubStreamInner.build (inner : SubStreamInner) : RuntimeResult Unit :=
  if ¬ inner.linked then .error (.consumerNotSet inner.name)
  else if ¬ inner.source then
    .error (.invalidConfiguration "SubStream result source is missing")
  else if inner.environmentServiceId.any (· != inner.serviceId) then
    .error (.invalidConfiguration "SubStream belongs to a different service")
  else .ok ()

/-- Who holds the gate of a call. -/
inductive Holder
  | consumer
  | delivery (d : ℕ)
  deriving DecidableEq

/-- Where `consume` is. -/
inductive ConsumePc
  | emitting
  | selecting
  | locking
  /-- The gate is held; `done.cancel()` of `close` is next. -/
  | draining
  /-- `callback.take()` of `close` is next. -/
  | taking
  /-- `completed.load` is next. -/
  | reading
  | returned (result : RuntimeResult Unit)
  /-- The future was dropped; its guard has cancelled `done`. -/
  | dropping
  | dropped
  deriving DecidableEq

/-- A `Call` and the `consume` that owns it. A `consume` that is refused never publishes its call.
Ghost: whether a collector of this call has returned `true`. -/
structure Call where
  subStream : ℕ
  context : Context
  collector : ℕ
  callback : Option (Context × ℕ)
  gate : Option Holder
  done : Bool
  completed : Bool
  pc : ConsumePc
  refused : Bool
  succeeded : Bool

/-- Where a result is. -/
inductive DeliveryPc
  | finding
  | locking (call : ℕ)
  /-- The gate is held; `done` is about to be checked. -/
  | entered (call : ℕ)
  /-- `callback` is about to be cloned. -/
  | checked (call : ℕ)
  /-- The caller's context is about to be checked. -/
  | cloned (call : ℕ) (context : Context) (collector : ℕ)
  | calling (call : ℕ) (context : Context) (collector : ℕ)
  /-- The collector has returned `true`; `completed.store` is next. -/
  | storing (call : ℕ)
  /-- `done.cancel()` of `close` is next. -/
  | closing (call : ℕ)
  /-- `callback.take()` of `close` is next. -/
  | taking (call : ℕ)
  | returned
  deriving DecidableEq

/-- A result on its way: `ResultLink::consume`. -/
structure Delivery (R : Type) where
  subStream : ℕ
  context : Context
  payload : R
  pc : DeliveryPc

structure State (R : Type) where
  calls : ℕ → Option Call
  deliveries : ℕ → Option (Delivery R)
  cancelled : ℕ → Bool

variable {R : Type}

namespace State

def init : State R where
  calls := fun _ => none
  deliveries := fun _ => none
  cancelled := fun _ => false

/-- `MessageContext::is_cancelled`. -/
def isCancelled (s : State R) (context : Context) : Bool := context.tokens.any s.cancelled

/-- A context somebody can have: its dispatch contexts are those of calls that were made. -/
def issued (s : State R) : Context → Bool
  | .new _ => true
  | .child parent _ => s.issued parent
  | .derived parent => s.issued parent
  | .bound parent _ _ => s.issued parent
  | .inside caller subStream call =>
    s.issued caller && (match s.calls call with
      | some c => !c.refused && c.subStream == subStream && c.context == caller
      | none => false)

def setCall (s : State R) (k : ℕ) (c : Call) : State R :=
  { s with calls := Function.update s.calls k (some c) }

def setDelivery (s : State R) (d : ℕ) (q : Delivery R) : State R :=
  { s with deliveries := Function.update s.deliveries d (some q) }

end State

/-! ## The steps -/

/-- The call of a new `consume`, or the error it returns before making one. -/
def Call.new (subStream : ℕ) (context : Context) (collector : ℕ) : Call where
  subStream := subStream
  context := context
  collector := collector
  callback := some (context, collector)
  gate := none
  done := false
  completed := false
  pc := .emitting
  refused := false
  succeeded := false

inductive Action (R : Type)
  | consume (k : ℕ) (subStream : ℕ) (context : Context) (collector : ℕ)
  /-- `emit` has returned. -/
  | emitted (k : ℕ)
  /-- A branch of the `select!` is ready. -/
  | selected (k : ℕ)
  | lockGate (k : ℕ)
  | cancelDone (k : ℕ)
  | takeCallback (k : ℕ)
  | loadCompleted (k : ℕ)
  /-- The future of `consume` is dropped. -/
  | drop (k : ℕ)
  | dropTake (k : ℕ)
  /-- A result of the source of a `SubStream`, in some context. -/
  | result (d : ℕ) (subStream : ℕ) (context : Context) (payload : R)
  | find (d : ℕ)
  | enter (d : ℕ)
  | checkDone (d : ℕ)
  | cloneCallback (d : ℕ)
  | checkContext (d : ℕ)
  /-- `collector.out` has returned. -/
  | out (d : ℕ) (accepted : Bool)
  | storeCompleted (d : ℕ)
  | closeDone (d : ℕ)
  | closeTake (d : ℕ)
  /-- The future of a delivery is dropped. -/
  | dropDelivery (d : ℕ)
  /-- A token is cancelled, or a deadline passes. -/
  | cancel (token : ℕ)

/-- The steps of `consume` and `dispatch` for the call `k`. -/
def stepCall (s : State R) (k : ℕ) (c : Call) : Action R → Option (State R)
  | .emitted _ =>
    if c.pc = .emitting then some (s.setCall k { c with pc := .selecting }) else none
  | .selected _ =>
    if c.pc = .selecting ∧ (s.isCancelled c.context ∨ c.done) then
      some (s.setCall k { c with pc := .locking })
    else none
  | .lockGate _ =>
    if c.pc = .locking ∧ c.gate = none then
      some (s.setCall k { c with pc := .draining, gate := some .consumer })
    else none
  | .cancelDone _ =>
    if c.pc = .draining then some (s.setCall k { c with pc := .taking, done := true }) else none
  | .takeCallback _ =>
    if c.pc = .taking then some (s.setCall k { c with pc := .reading, callback := none }) else none
  | .loadCompleted _ =>
    -- The gate is released, and the guard's `close` changes nothing any more.
    if c.pc = .reading then
      some (s.setCall k { c with
        pc := .returned (if c.completed then .ok () else .error .contextCancelled)
        gate := none })
    else none
  | .drop _ =>
    if c.pc = .emitting ∨ c.pc = .selecting ∨ c.pc = .locking then
      some (s.setCall k { c with pc := .dropping, done := true })
    else none
  | .dropTake _ =>
    if c.pc = .dropping then some (s.setCall k { c with pc := .dropped, callback := none })
    else none
  | _ => none

/-- A delivery leaves and releases the gate. -/
def leave (s : State R) (d : ℕ) (q : Delivery R) (k : ℕ) (c : Call) : State R :=
  (s.setCall k { c with gate := none }).setDelivery d { q with pc := .returned }

/-- The steps of `Call::deliver` for a delivery that holds the gate of `k`. -/
def stepInside (s : State R) (d : ℕ) (q : Delivery R) (k : ℕ) (c : Call) :
    Action R → Option (State R)
  | .checkDone _ =>
    if q.pc = .entered k then
      if c.done then some (leave s d q k c)
      else some (s.setDelivery d { q with pc := .checked k })
    else none
  | .cloneCallback _ =>
    if q.pc = .checked k then
      match c.callback with
      | none => some (leave s d q k c)
      | some (context, collector) =>
        some (s.setDelivery d { q with pc := .cloned k context collector })
    else none
  | .checkContext _ =>
    match q.pc with
    | .cloned _ context collector =>
      if s.isCancelled context then some (s.setDelivery d { q with pc := .closing k })
      else some (s.setDelivery d { q with pc := .calling k context collector })
    | _ => none
  | .out _ accepted =>
    match q.pc with
    | .calling _ _ _ =>
      if accepted then
        some ((s.setCall k { c with succeeded := true }).setDelivery d { q with pc := .storing k })
      else some (leave s d q k c)
    | _ => none
  | .storeCompleted _ =>
    if q.pc = .storing k then
      some ((s.setCall k { c with completed := true }).setDelivery d { q with pc := .closing k })
    else none
  | .closeDone _ =>
    if q.pc = .closing k then
      some ((s.setCall k { c with done := true }).setDelivery d { q with pc := .taking k })
    else none
  | .closeTake _ =>
    if q.pc = .taking k then some (leave s d q k { c with callback := none }) else none
  | .dropDelivery _ =>
    match q.pc with
    | .calling _ _ _ => some (leave s d q k c)
    | _ => none
  | _ => none

/-- The call whose gate a delivery holds. -/
def DeliveryPc.inside : DeliveryPc → Option ℕ
  | .entered k | .checked k | .cloned k _ _ | .calling k _ _ | .storing k | .closing k
  | .taking k => some k
  | _ => none

/-- The steps of a delivery. -/
def stepDelivery (s : State R) (d : ℕ) (q : Delivery R) : Action R → Option (State R)
  | .find _ =>
    if q.pc = .finding then
      match q.context.localValue (.subStream q.subStream) with
      | none => some (s.setDelivery d { q with pc := .returned })
      | some k => some (s.setDelivery d { q with pc := .locking k })
    else none
  | .enter _ =>
    match q.pc with
    | .locking k =>
      (s.calls k).bind fun c =>
        if c.gate = none then
          some ((s.setCall k { c with gate := some (.delivery d) }).setDelivery d
            { q with pc := .entered k })
        else none
    | _ => none
  | a =>
    match a, q.pc with
    | .dropDelivery _, .locking _ => some (s.setDelivery d { q with pc := .returned })
    | _, _ => q.pc.inside.bind fun k => (s.calls k).bind fun c => stepInside s d q k c a

def step (inner : ℕ → SubStreamInner) (s : State R) (a : Action R) : Option (State R) :=
  match a with
  | .consume k subStream context collector =>
    match s.calls k with
    | some _ => none
    | none =>
      if s.issued context then
        let refuse (error : RuntimeError) : State R :=
          s.setCall k { Call.new subStream context collector with
            callback := none
            pc := .returned (.error error)
            refused := true }
        match (inner subStream).build with
        | .error error => some (refuse error)
        | .ok () =>
          if s.isCancelled context then some (refuse .contextCancelled)
          else some (s.setCall k (.new subStream context collector))
      else none
  | .result d subStream context payload =>
    match s.deliveries d with
    | some _ => none
    | none =>
      if s.issued context then some (s.setDelivery d ⟨subStream, context, payload, .finding⟩)
      else none
  | .cancel token => some { s with cancelled := Function.update s.cancelled token true }
  | .emitted k | .selected k | .lockGate k | .cancelDone k | .takeCallback k | .loadCompleted k
  | .drop k | .dropTake k => (s.calls k).bind fun c => stepCall s k c a
  | .find d | .enter d | .checkDone d | .cloneCallback d | .checkContext d | .out d _
  | .storeCompleted d | .closeDone d | .closeTake d | .dropDelivery d =>
    (s.deliveries d).bind fun q => stepDelivery s d q a

/-- Any number of invocations of any `SubStream`s. -/
def calls (R : Type) (inner : ℕ → SubStreamInner) : System (State R) (Action R) :=
  ⟨State.init, step inner⟩

/-! ## The invariant -/

/-- A call, whoever looks at it. -/
structure CallOk (c : Call) : Prop where
  consumer : c.pc = .draining ∨ c.pc = .taking ∨ c.pc = .reading → c.gate = some .consumer
  closed : c.refused = false → (c.pc = .taking ∨ c.pc = .reading ∨ ∃ r, c.pc = .returned r) →
    c.done
  /-- While no delivery is at work, `completed` is up to date and the call is closed with it. -/
  settled : (∀ d, c.gate ≠ some (.delivery d)) →
    c.succeeded = c.completed ∧ (c.succeeded → c.done)
  returned : ∀ r, c.pc = .returned r → (r = .ok () ↔ c.succeeded = true)
  callback : ∀ context collector, c.callback = some (context, collector) →
    context = c.context ∧ collector = c.collector

/-- No collector of the call has accepted a result, and its `consume` has not returned. -/
structure Fresh (c : Call) : Prop where
  succeeded : c.succeeded = false
  completed : c.completed = false
  returned : ∀ r, c.pc ≠ .returned r

/-- What a delivery at the gate knows about the call. -/
def Stage (c : Call) : DeliveryPc → Prop
  | .entered _ => c.succeeded = c.completed ∧ (c.succeeded → c.done)
  | .checked _ => Fresh c
  | .cloned _ context collector => Fresh c ∧ context = c.context ∧ collector = c.collector
  | .calling _ context collector => Fresh c ∧ context = c.context ∧ collector = c.collector
  | .storing _ => c.succeeded = true ∧ ∀ r, c.pc ≠ .returned r
  | .closing _ => c.succeeded = c.completed ∧ ∀ r, c.pc ≠ .returned r
  | .taking _ => c.succeeded = c.completed ∧ c.done
  | _ => True

/-- The call `k` is the one the delivery is for. -/
structure Routes (calls : ℕ → Option Call) (q : Delivery R) (k : ℕ) (c : Call) : Prop where
  call : calls k = some c
  nearest : q.context.nearest q.subStream = some k
  subStream : c.subStream = q.subStream
  live : c.refused = false

structure DeliveryOk (s : State R) (d : ℕ) (q : Delivery R) : Prop where
  issued : s.issued q.context
  locking : ∀ k, q.pc = .locking k → ∃ c, Routes s.calls q k c
  inside : ∀ k, q.pc.inside = some k →
    ∃ c, Routes s.calls q k c ∧ c.gate = some (.delivery d) ∧ Stage c q.pc

structure Ok (s : State R) : Prop where
  calls : ∀ k c, s.calls k = some c → CallOk c
  deliveries : ∀ d q, s.deliveries d = some q → DeliveryOk s d q

theorem ok_init : Ok (State.init : State R) where
  calls := fun k c h => by cases h
  deliveries := fun d q h => by cases h

/-! ### What a step may do to the others -/

/-- The parts of a call that never change. -/
structure Same (c c' : Call) : Prop where
  subStream : c'.subStream = c.subStream
  context : c'.context = c.context
  collector : c'.collector = c.collector
  refused : c'.refused = c.refused

theorem Stage.mono {c c' : Call} {pc : DeliveryPc} (h : Stage c pc) (hsame : Same c c')
    (hs : c'.succeeded = c.succeeded) (hc : c'.completed = c.completed)
    (hd : c.done → c'.done) (hr : ∀ r, c'.pc = .returned r → c.pc = .returned r) :
    Stage c' pc := by
  have hret : (∀ r, c.pc ≠ .returned r) → ∀ r, c'.pc ≠ .returned r :=
    fun hn r hpc => hn r (hr r hpc)
  have hfresh : Fresh c → Fresh c' := fun hf =>
    ⟨hs.trans hf.succeeded, hc.trans hf.completed, hret hf.returned⟩
  cases pc with
  | entered k =>
    simp only [Stage, hs, hc]
    exact ⟨h.1, fun ht => hd (h.2 ht)⟩
  | checked k => exact hfresh h
  | cloned k context collector =>
    exact ⟨hfresh h.1, h.2.1.trans hsame.context.symm, h.2.2.trans hsame.collector.symm⟩
  | calling k context collector =>
    exact ⟨hfresh h.1, h.2.1.trans hsame.context.symm, h.2.2.trans hsame.collector.symm⟩
  | storing k => exact ⟨hs.trans h.1, hret h.2⟩
  | closing k => exact ⟨hs.trans (h.1.trans hc.symm), hret h.2⟩
  | taking k => exact ⟨hs.trans (h.1.trans hc.symm), hd h.2⟩
  | finding | locking k | returned => trivial

/-- Contexts stay issued as long as no call changes its identity. -/
theorem issued_mono {s t : State R}
    (h : ∀ k c, s.calls k = some c → ∃ c', t.calls k = some c' ∧ Same c c') {context : Context}
    (hi : s.issued context = true) : t.issued context = true := by
  induction context with
  | new token => rfl
  | child parent token ih => exact ih hi
  | derived parent ih => exact ih hi
  | bound parent key value ih => exact ih hi
  | inside caller subStream call ih =>
    simp only [State.issued, Bool.and_eq_true] at hi ⊢
    refine ⟨ih hi.1, ?_⟩
    cases hc : s.calls call with
    | none => simp [hc] at hi
    | some c =>
      obtain ⟨c', hc', hsame⟩ := h call c hc
      simpa [hc, hc', hsame.refused, hsame.subStream, hsame.context] using hi.2

/-- How the calls may change without disturbing delivery `d`. -/
def Undisturbed (d : ℕ) (calls calls' : ℕ → Option Call) : Prop :=
  ∀ k c, calls k = some c → ∃ c', calls' k = some c' ∧ Same c c' ∧
    (c.gate = some (.delivery d) → c'.gate = c.gate ∧ ∀ pc, Stage c pc → Stage c' pc)

theorem undisturbed_refl (d : ℕ) (calls : ℕ → Option Call) : Undisturbed d calls calls :=
  fun _ c hc => ⟨c, hc, ⟨rfl, rfl, rfl, rfl⟩, fun _ => ⟨rfl, fun _ => id⟩⟩

theorem Routes.frame {calls calls' : ℕ → Option Call} {q : Delivery R} {k : ℕ} {c c' : Call}
    (h : Routes calls q k c) (hc' : calls' k = some c') (hsame : Same c c') :
    Routes calls' q k c' :=
  ⟨hc', h.nearest, hsame.subStream.trans h.subStream, hsame.refused.trans h.live⟩

theorem DeliveryOk.frame {s t : State R} {d : ℕ} {q : Delivery R} (h : DeliveryOk s d q)
    (hu : Undisturbed d s.calls t.calls) : DeliveryOk t d q where
  issued := issued_mono (fun k c hc => (hu k c hc).imp fun _ hx => ⟨hx.1, hx.2.1⟩) h.issued
  locking := by
    intro k hk
    obtain ⟨c, hc⟩ := h.locking k hk
    obtain ⟨c', hc', hsame, -⟩ := hu k c hc.call
    exact ⟨c', hc.frame hc' hsame⟩
  inside := by
    intro k hk
    obtain ⟨c, hc, hgate, hstage⟩ := h.inside k hk
    obtain ⟨c', hc', hsame, hkeep⟩ := hu k c hc.call
    obtain ⟨hg, hst⟩ := hkeep hgate
    exact ⟨c', hc.frame hc' hsame, hg.trans hgate, hst _ hstage⟩

theorem undisturbed_setCall {s : State R} {k d : ℕ} {c c' : Call} (hc : s.calls k = some c)
    (hsame : Same c c') (hkeep : c.gate = some (.delivery d) →
      c'.gate = c.gate ∧ ∀ pc, Stage c pc → Stage c' pc) :
    Undisturbed d s.calls (s.setCall k c').calls := by
  intro k' c₁ hc₁
  by_cases hk : k' = k
  · subst hk
    obtain rfl : c = c₁ := Option.some.inj (hc.symm.trans hc₁)
    exact ⟨c', Function.update_self .., hsame, hkeep⟩
  · exact ⟨c₁, (Function.update_of_ne hk ..).trans hc₁, ⟨rfl, rfl, rfl, rfl⟩, fun _ => ⟨rfl, fun _ => id⟩⟩

theorem Ok.calls_setCall {s : State R} (h : Ok s) {k : ℕ} {c' : Call} (hok : CallOk c') :
    ∀ k₁ c₁, (s.setCall k c').calls k₁ = some c₁ → CallOk c₁ := by
  intro k₁ c₁ hc₁
  simp only [State.setCall, Function.update_apply] at hc₁
  split_ifs at hc₁
  · exact Option.some.inj hc₁ ▸ hok
  · exact h.calls k₁ c₁ hc₁

/-- A step of `consume`. -/
theorem Ok.setCall {s : State R} (h : Ok s) {k : ℕ} {c c' : Call} (hc : s.calls k = some c)
    (hok : CallOk c') (hsame : Same c c')
    (hkeep : ∀ d, c.gate = some (.delivery d) →
      c'.gate = c.gate ∧ ∀ pc, Stage c pc → Stage c' pc) : Ok (s.setCall k c') where
  calls := h.calls_setCall hok
  deliveries := fun d q hq => (h.deliveries d q hq).frame (undisturbed_setCall hc hsame (hkeep d))

/-- A step of a delivery that is alone at the gate of `k`, or about to take it. -/
theorem Ok.setBoth {s : State R} (h : Ok s) {k d : ℕ} {c c' : Call} {q q' : Delivery R}
    (hq : s.deliveries d = some q) (hc : s.calls k = some c) (hok : CallOk c') (hsame : Same c c')
    (hgate : ∀ d', d' ≠ d → c.gate ≠ some (.delivery d'))
    (hctx : q'.context = q.context) (hlock : ∀ k, q'.pc ≠ .locking k)
    (hin : ∀ k₁, q'.pc.inside = some k₁ →
      k₁ = k ∧ Routes s.calls q' k c ∧ c'.gate = some (.delivery d) ∧ Stage c' q'.pc) :
    Ok ((s.setCall k c').setDelivery d q') where
  calls := h.calls_setCall hok
  deliveries := by
    intro d₁ q₁ hq₁
    simp only [State.setDelivery, Function.update_apply] at hq₁
    split_ifs at hq₁ with hd
    · subst hd
      obtain rfl : q' = q₁ := Option.some.inj hq₁
      refine ⟨?_, fun k₁ hk₁ => absurd hk₁ (hlock k₁), fun k₁ hk₁ => ?_⟩
      · rw [hctx]
        refine issued_mono (s := s) (fun k₁ c₁ hc₁ => ?_) (h.deliveries d₁ q hq).issued
        by_cases hk : k₁ = k
        · subst hk
          obtain rfl : c = c₁ := Option.some.inj (hc.symm.trans hc₁)
          exact ⟨c', Function.update_self .., hsame⟩
        · exact ⟨c₁, (Function.update_of_ne hk ..).trans hc₁, rfl, rfl, rfl, rfl⟩
      · obtain ⟨rfl, hroute, hg, hst⟩ := hin k₁ hk₁
        exact ⟨c', hroute.frame (Function.update_self ..) hsame, hg, hst⟩
    · refine (h.deliveries d₁ q₁ hq₁).frame (t := (s.setCall k c').setDelivery d q') ?_
      exact undisturbed_setCall hc hsame fun hg => absurd hg (hgate d₁ hd)

/-- A step of a delivery that changes no call. -/
theorem Ok.setDelivery {s : State R} (h : Ok s) {d : ℕ} {q : Delivery R}
    (hok : DeliveryOk s d q) : Ok (s.setDelivery d q) where
  calls := h.calls
  deliveries := by
    intro d₁ q₁ hq₁
    simp only [State.setDelivery, Function.update_apply] at hq₁
    split_ifs at hq₁ with hd
    · subst hd
      obtain rfl : q = q₁ := Option.some.inj hq₁
      exact hok.frame (undisturbed_refl _ _)
    · exact (h.deliveries d₁ q₁ hq₁).frame (undisturbed_refl _ _)

/-! ### The steps -/

theorem Ok.stepCall {s t : State R} (h : Ok s) {k : ℕ} {c : Call} {a : Action R}
    (hc : s.calls k = some c) (hs : stepCall s k c a = some t) : Ok t := by
  have hok := h.calls k c hc
  have hmono : ∀ c' : Call, Same c c' → c'.succeeded = c.succeeded → c'.completed = c.completed →
      (c.done → c'.done) → (∀ r, c'.pc ≠ .returned r) → c'.gate = c.gate →
      ∀ d, c.gate = some (.delivery d) → c'.gate = c.gate ∧ ∀ pc, Stage c pc → Stage c' pc := by
    intro c' hsame hsu hco hdo hre hga d _
    exact ⟨hga, fun pc hst => hst.mono hsame hsu hco hdo fun r hr => absurd hr (hre r)⟩
  unfold SubStream.stepCall at hs
  cases a with
  | emitted _ =>
    simp only at hs
    split_ifs at hs with hpc
    cases hs
    refine h.setCall hc ⟨by simp, by simp, hok.settled, by simp, hok.callback⟩ ⟨rfl, rfl, rfl, rfl⟩
      (hmono _ ⟨rfl, rfl, rfl, rfl⟩ rfl rfl id (by simp) rfl)
  | selected _ =>
    simp only at hs
    split_ifs at hs with hpc
    cases hs
    refine h.setCall hc ⟨by simp, by simp, hok.settled, by simp, hok.callback⟩ ⟨rfl, rfl, rfl, rfl⟩
      (hmono _ ⟨rfl, rfl, rfl, rfl⟩ rfl rfl id (by simp) rfl)
  | lockGate _ =>
    simp only at hs
    split_ifs at hs with hpc
    cases hs
    refine h.setCall hc ⟨by simp, by simp, fun _ => hok.settled (by simp [hpc.2]), by simp,
      hok.callback⟩ ⟨rfl, rfl, rfl, rfl⟩ fun d hg => ?_
    rw [hpc.2] at hg
    cases hg
  | cancelDone _ =>
    simp only at hs
    split_ifs at hs with hpc
    cases hs
    have hgate := hok.consumer (Or.inl hpc)
    refine h.setCall hc ⟨fun _ => hgate, fun _ _ => rfl,
      fun hg => ⟨(hok.settled hg).1, fun _ => rfl⟩, by simp, hok.callback⟩ ⟨rfl, rfl, rfl, rfl⟩
      (hmono _ ⟨rfl, rfl, rfl, rfl⟩ rfl rfl (fun _ => rfl) (by simp) rfl)
  | takeCallback _ =>
    simp only at hs
    split_ifs at hs with hpc
    cases hs
    have hgate := hok.consumer (Or.inr (Or.inl hpc))
    refine h.setCall hc ⟨fun _ => hgate, fun hr _ => hok.closed hr (Or.inl hpc), hok.settled,
      by simp, by simp⟩ ⟨rfl, rfl, rfl, rfl⟩
      (hmono _ ⟨rfl, rfl, rfl, rfl⟩ rfl rfl id (by simp) rfl)
  | loadCompleted _ =>
    simp only at hs
    generalize hres : (if c.completed then (.ok () : RuntimeResult Unit)
      else .error .contextCancelled) = result at hs
    split_ifs at hs with hpc
    cases hs
    have hgate := hok.consumer (Or.inr (Or.inr hpc))
    have hsettled := hok.settled (by simp [hgate])
    refine h.setCall hc ⟨by simp, fun hr _ => hok.closed hr (Or.inr (Or.inl hpc)),
      fun _ => hsettled, ?_, hok.callback⟩ ⟨rfl, rfl, rfl, rfl⟩ fun d hg => ?_
    · intro r hr
      cases hr
      rw [hsettled.1, ← hres]
      cases c.completed <;> simp
    · rw [hgate] at hg
      cases hg
  | drop _ =>
    simp only at hs
    split_ifs at hs with hpc
    cases hs
    refine h.setCall hc ⟨by simp, fun _ _ => rfl, fun hg => ⟨(hok.settled hg).1, fun _ => rfl⟩,
      by simp, hok.callback⟩ ⟨rfl, rfl, rfl, rfl⟩
      (hmono _ ⟨rfl, rfl, rfl, rfl⟩ rfl rfl (fun _ => rfl) (by simp) rfl)
  | dropTake _ =>
    simp only at hs
    split_ifs at hs with hpc
    cases hs
    refine h.setCall hc ⟨by simp, by simp, hok.settled, by simp, by simp⟩ ⟨rfl, rfl, rfl, rfl⟩
      (hmono _ ⟨rfl, rfl, rfl, rfl⟩ rfl rfl id (by simp) rfl)
  | _ => cases hs

/-- A delivery leaves the gate: the call is settled again. -/
theorem Ok.leave {s : State R} (h : Ok s) {k d : ℕ} {c c' : Call} {q : Delivery R}
    (hq : s.deliveries d = some q) (hc : s.calls k = some c) (hgate : c.gate = some (.delivery d))
    (hsame : Same c c') (hpc : c'.pc = c.pc) (hsu : c'.succeeded = c.succeeded)
    (hdone : c.done → c'.done)
    (hcb : ∀ context collector, c'.callback = some (context, collector) →
      c.callback = some (context, collector))
    (hsettled : c'.succeeded = c'.completed ∧ (c'.succeeded → c'.done)) :
    Ok (leave s d q k c') := by
  have hok := h.calls k c hc
  refine h.setBoth hq hc ⟨?_, ?_, fun _ => hsettled, ?_, ?_⟩
    ⟨hsame.subStream, hsame.context, hsame.collector, hsame.refused⟩
    (fun d' hd' hg => ?_) rfl (by simp) (by simp [DeliveryPc.inside])
  · intro hp
    simp only [hpc] at hp
    rw [hok.consumer hp] at hgate
    cases hgate
  · intro hr hp
    simp only [hpc, hsame.refused] at hp hr
    exact hdone (hok.closed hr hp)
  · intro r hr
    simp only [hpc, hsu] at hr ⊢
    exact hok.returned r hr
  · intro context collector hcol
    simp only [hsame.context, hsame.collector]
    exact hok.callback context collector (hcb context collector hcol)
  · rw [hgate] at hg
    cases hg
    exact hd' rfl

theorem Ok.stepInside {s t : State R} (h : Ok s) {d k : ℕ} {q : Delivery R} {c : Call}
    {a : Action R} (hq : s.deliveries d = some q) (hin : q.pc.inside = some k)
    (hc : s.calls k = some c) (hs : stepInside s d q k c a = some t) : Ok t := by
  have hok := h.calls k c hc
  have hd := h.deliveries d q hq
  obtain ⟨c₁, hroute, hgate, hstage⟩ := hd.inside k hin
  obtain rfl : c = c₁ := Option.some.inj (hc.symm.trans hroute.call)
  have hother : ∀ d', d' ≠ d → c.gate ≠ some (.delivery d') := by
    intro d' hd' hg
    rw [hgate] at hg
    cases hg
    exact hd' rfl
  have hpc : ¬ (c.pc = .draining ∨ c.pc = .taking ∨ c.pc = .reading) := by
    intro hp
    rw [hok.consumer hp] at hgate
    cases hgate
  -- A step that stays at the gate and only moves on.
  have hmove : ∀ pc, pc.inside = some k → Stage c pc →
      Ok (s.setDelivery d { q with pc := pc }) := by
    intro pc hk hst
    refine h.setDelivery ⟨hd.issued, fun k₁ hk₁ => ?_, fun k₁ hk₁ => ?_⟩
    · simp only at hk₁
      rw [hk₁] at hk
      cases hk
    · obtain rfl : k = k₁ := Option.some.inj (hk.symm.trans hk₁)
      exact ⟨c, ⟨hroute.call, hroute.nearest, hroute.subStream, hroute.live⟩, hgate, hst⟩
  unfold SubStream.stepInside at hs
  cases a with
  | checkDone _ =>
    simp only at hs
    split_ifs at hs with hp hdone <;> cases hs
    all_goals rw [hp] at hstage
    · exact h.leave hq hc hgate ⟨rfl, rfl, rfl, rfl⟩ rfl rfl id (fun _ _ => id) hstage
    · have hsu : c.succeeded = false := by
        by_contra hsu
        exact hdone (hstage.2 (by simpa using hsu))
      refine hmove _ rfl ⟨hsu, hstage.1.symm.trans hsu, fun r hr => ?_⟩
      exact hdone (hok.closed hroute.live (Or.inr (Or.inr ⟨r, hr⟩)))
  | cloneCallback _ =>
    simp only at hs
    split_ifs at hs with hp
    rw [hp] at hstage
    cases hcb : c.callback with
    | none =>
      rw [hcb] at hs
      cases hs
      refine h.leave hq hc hgate ⟨rfl, rfl, rfl, rfl⟩ rfl rfl id (fun _ _ => id) ?_
      simp [hstage.succeeded, hstage.completed]
    | some v =>
      obtain ⟨context, collector⟩ := v
      rw [hcb] at hs
      cases hs
      exact hmove _ rfl ⟨hstage, hok.callback context collector hcb⟩
  | checkContext _ =>
    cases hp : q.pc <;> simp only [hp, reduceCtorEq] at hs
    case cloned k₁ context collector =>
    rw [hp] at hstage
    split_ifs at hs <;> cases hs
    · exact hmove _ rfl ⟨hstage.1.succeeded.trans hstage.1.completed.symm, hstage.1.returned⟩
    · exact hmove _ rfl hstage
  | out _ accepted =>
    cases hp : q.pc <;> simp only [hp, reduceCtorEq] at hs
    case calling k₁ context collector =>
    rw [hp] at hstage
    split_ifs at hs <;> cases hs
    · refine h.setBoth hq hc ⟨fun hp => absurd hp hpc, hok.closed, ?_, ?_, hok.callback⟩
        ⟨rfl, rfl, rfl, rfl⟩ hother rfl (by simp) fun k₁ hk₁ => ?_
      · exact fun hg => absurd hgate (hg d)
      · exact fun r hr => absurd hr (hstage.1.returned r)
      · obtain rfl : k = k₁ := Option.some.inj hk₁
        exact ⟨rfl, ⟨hroute.call, hroute.nearest, hroute.subStream, hroute.live⟩, hgate, rfl,
          hstage.1.returned⟩
    · refine h.leave hq hc hgate ⟨rfl, rfl, rfl, rfl⟩ rfl rfl id (fun _ _ => id) ?_
      simp [hstage.1.succeeded, hstage.1.completed]
  | storeCompleted _ =>
    simp only at hs
    split_ifs at hs with hp
    rw [hp] at hstage
    cases hs
    refine h.setBoth hq hc ⟨fun hp => absurd hp hpc, hok.closed, ?_, hok.returned, hok.callback⟩
      ⟨rfl, rfl, rfl, rfl⟩ hother rfl (by simp) fun k₁ hk₁ => ?_
    · exact fun hg => absurd hgate (hg d)
    · obtain rfl : k = k₁ := Option.some.inj hk₁
      exact ⟨rfl, ⟨hroute.call, hroute.nearest, hroute.subStream, hroute.live⟩, hgate, hstage⟩
  | closeDone _ =>
    simp only at hs
    split_ifs at hs with hp
    rw [hp] at hstage
    cases hs
    refine h.setBoth hq hc ⟨fun hp => absurd hp hpc, fun _ _ => rfl, ?_, hok.returned, hok.callback⟩
      ⟨rfl, rfl, rfl, rfl⟩ hother rfl (by simp) fun k₁ hk₁ => ?_
    · exact fun hg => absurd hgate (hg d)
    · obtain rfl : k = k₁ := Option.some.inj hk₁
      exact ⟨rfl, ⟨hroute.call, hroute.nearest, hroute.subStream, hroute.live⟩, hgate, hstage.1, rfl⟩
  | closeTake _ =>
    simp only at hs
    split_ifs at hs with hp
    rw [hp] at hstage
    cases hs
    exact h.leave hq hc hgate ⟨rfl, rfl, rfl, rfl⟩ rfl rfl id (by simp)
      ⟨hstage.1, fun _ => hstage.2⟩
  | dropDelivery _ =>
    cases hp : q.pc <;> simp only [hp, reduceCtorEq] at hs
    case calling k₁ context collector =>
    rw [hp] at hstage
    cases hs
    refine h.leave hq hc hgate ⟨rfl, rfl, rfl, rfl⟩ rfl rfl id (fun _ _ => id) ?_
    simp [hstage.1.succeeded, hstage.1.completed]
  | _ => cases hs

/-- The nearest invocation in an issued context has been made, of that `SubStream`. -/
theorem nearest_issued {s : State R} {context : Context} (hi : s.issued context = true)
    {subStream k : ℕ} (hk : context.nearest subStream = some k) :
    ∃ c, s.calls k = some c ∧ c.subStream = subStream ∧ c.refused = false := by
  induction context with
  | new token => cases hk
  | child parent token ih => exact ih hi hk
  | derived parent ih => exact ih hi hk
  | bound parent key value ih => exact ih hi hk
  | inside caller id call ih =>
    simp only [State.issued, Bool.and_eq_true] at hi
    simp only [Context.nearest] at hk
    split_ifs at hk with hid
    · obtain rfl : call = k := Option.some.inj hk
      cases hc : s.calls call with
      | none => simp [hc] at hi
      | some c =>
        simp only [hc, Bool.and_eq_true, Bool.not_eq_true', beq_iff_eq] at hi
        exact ⟨c, rfl, hi.2.1.2.trans hid, hi.2.1.1⟩
    · exact ih hi.1 hk

theorem Ok.stepDelivery {s t : State R} (h : Ok s) {d : ℕ} {q : Delivery R} {a : Action R}
    (hq : s.deliveries d = some q) (hs : stepDelivery s d q a = some t) : Ok t := by
  have hd := h.deliveries d q hq
  have hreturned : Ok (s.setDelivery d { q with pc := .returned }) :=
    h.setDelivery ⟨hd.issued, by simp, by simp [DeliveryPc.inside]⟩
  have hinside : ∀ a, (q.pc.inside.bind fun k => (s.calls k).bind fun c =>
      SubStream.stepInside s d q k c a) = some t → Ok t := by
    intro a hs
    obtain ⟨k, hk, hs⟩ := Option.bind_eq_some_iff.1 hs
    obtain ⟨c, hc, hs⟩ := Option.bind_eq_some_iff.1 hs
    exact h.stepInside hq hk hc hs
  unfold SubStream.stepDelivery at hs
  cases a with
  | find _ =>
    simp only at hs
    split_ifs at hs
    cases hk : q.context.localValue (.subStream q.subStream) with
    | none =>
      rw [hk] at hs
      cases hs
      exact hreturned
    | some k =>
      rw [hk] at hs
      cases hs
      rw [Context.localValue_eq_nearest] at hk
      obtain ⟨c, hc, hsub, hlive⟩ := nearest_issued hd.issued hk
      refine h.setDelivery ⟨hd.issued, fun k₁ hk₁ => ?_, by simp [DeliveryPc.inside]⟩
      cases hk₁
      exact ⟨c, hc, hk, hsub, hlive⟩
  | enter _ =>
    cases hp : q.pc <;> simp only [hp, reduceCtorEq] at hs
    case locking k =>
    obtain ⟨c, hc, hs⟩ := Option.bind_eq_some_iff.1 hs
    split_ifs at hs with hgate
    cases hs
    have hok := h.calls k c hc
    obtain ⟨c₁, hroute⟩ := hd.locking k hp
    obtain rfl : c = c₁ := Option.some.inj (hc.symm.trans hroute.call)
    have hsettled := hok.settled (by simp [hgate])
    refine h.setBoth hq hc ⟨fun hpc => ?_, hok.closed, fun _ => hsettled, hok.returned, hok.callback⟩
      ⟨rfl, rfl, rfl, rfl⟩ (fun d' _ => by simp [hgate]) rfl (by simp) fun k₁ hk₁ => ?_
    · have := hok.consumer hpc
      rw [hgate] at this
      cases this
    · obtain rfl : k = k₁ := Option.some.inj hk₁
      exact ⟨rfl, ⟨hroute.call, hroute.nearest, hroute.subStream, hroute.live⟩, rfl, hsettled⟩
  | dropDelivery _ =>
    simp only at hs
    split at hs
    · cases hs
      exact hreturned
    · exact hinside _ hs
  | _ => exact hinside _ hs

theorem Ok.step {inner : ℕ → SubStreamInner} {s t : State R} {a : Action R} (h : Ok s)
    (hs : step inner s a = some t) : Ok t := by
  -- A new call disturbs nobody: no context mentions it yet.
  have hnew : ∀ k c, s.calls k = none → CallOk c → Ok (s.setCall k c) := by
    intro k c hk hok
    refine ⟨h.calls_setCall hok, fun d q hq => (h.deliveries d q hq).frame fun k₁ c₁ hc₁ => ?_⟩
    refine ⟨c₁, ?_, ⟨rfl, rfl, rfl, rfl⟩, fun _ => ⟨rfl, fun _ => id⟩⟩
    rw [← hc₁]
    refine Function.update_of_ne (fun hc => ?_) ..
    rw [hc, hk] at hc₁
    cases hc₁
  unfold SubStream.step at hs
  cases a with
  | consume k subStream context collector =>
    simp only at hs
    cases hk : s.calls k with
    | some c => simp [hk] at hs
    | none =>
      simp only [hk] at hs
      have hrefused : ∀ error, CallOk { Call.new subStream context collector with
          callback := none
          pc := .returned (.error error)
          refused := true } := by
        intro error
        refine ⟨by simp, by simp, fun _ => ⟨rfl, by simp [Call.new]⟩, fun r hr => ?_, by simp⟩
        cases hr
        simp [Call.new]
      cases hb : (inner subStream).build with
      | error error =>
        simp only [hb] at hs
        split_ifs at hs
        cases hs
        exact hnew k _ hk (hrefused error)
      | ok _ =>
        simp only [hb] at hs
        split_ifs at hs
        · cases hs
          exact hnew k _ hk (hrefused _)
        · cases hs
          refine hnew k _ hk ⟨by simp [Call.new], by simp [Call.new],
            fun _ => ⟨rfl, by simp [Call.new]⟩, by simp [Call.new], fun context' collector' hcb => ?_⟩
          cases hcb
          exact ⟨rfl, rfl⟩
  | result d subStream context payload =>
    simp only at hs
    cases hq : s.deliveries d with
    | some q => simp [hq] at hs
    | none =>
      simp only [hq] at hs
      split_ifs at hs with hi
      cases hs
      exact h.setDelivery ⟨hi, by simp, by simp [DeliveryPc.inside]⟩
  | cancel token =>
    cases hs
    exact ⟨h.calls, fun d q hq => (h.deliveries d q hq).frame (undisturbed_refl _ _)⟩
  | emitted k | selected k | lockGate k | cancelDone k | takeCallback k | loadCompleted k
  | drop k | dropTake k =>
    obtain ⟨c, hc, hs⟩ := Option.bind_eq_some_iff.1 hs
    exact h.stepCall hc hs
  | find d | enter d | checkDone d | cloneCallback d | checkContext d | out d _
  | storeCompleted d | closeDone d | closeTake d | dropDelivery d =>
    obtain ⟨q, hq, hs⟩ := Option.bind_eq_some_iff.1 hs
    exact h.stepDelivery hq hs

theorem ok_reachable {inner : ℕ → SubStreamInner} {s : State R}
    (h : (calls R inner).Reachable s) : Ok s :=
  h.invariant ok_init fun _ _ _ hi hs => hi.step hs

/-! ## The result -/

/-- A collector is running in delivery `d`, for the call `k`. -/
def Calling (s : State R) (d k : ℕ) (context : Context) (collector : ℕ) : Prop :=
  ∃ q, s.deliveries d = some q ∧ q.pc = .calling k context collector

/-- **The call protocol.** In every reachable state:
* at most one collector of a call is running;
* while one is running, none of that call's collectors has returned `true` and its `consume` has
  not returned, so none begins after either and none survives the return;
* a `consume` that has returned, returned `Ok` iff a collector of its call returned `true`;
* a collector runs for the nearest invocation of its `SubStream` that encloses the result's
  context; it is the collector of that invocation and gets that invocation's own context. -/
theorem substream_protocol (inner : ℕ → SubStreamInner) (s : State R)
    (h : (calls R inner).Reachable s) :
    (∀ d d' k context context' collector collector', Calling s d k context collector →
      Calling s d' k context' collector' → d = d') ∧
    (∀ d k context collector c, Calling s d k context collector → s.calls k = some c →
      c.succeeded = false ∧ ∀ r, c.pc ≠ .returned r) ∧
    (∀ k c r, s.calls k = some c → c.pc = .returned r → (r = .ok () ↔ c.succeeded = true)) ∧
    (∀ d q k context collector, s.deliveries d = some q → q.pc = .calling k context collector →
      q.context.nearest q.subStream = some k ∧ ∃ c, s.calls k = some c ∧
        c.subStream = q.subStream ∧ collector = c.collector ∧ context = c.context) := by
  have hok := ok_reachable h
  have hcalling : ∀ d q k context collector, s.deliveries d = some q →
      q.pc = .calling k context collector → ∃ c, Routes s.calls q k c ∧
        c.gate = some (.delivery d) ∧ Fresh c ∧ context = c.context ∧ collector = c.collector := by
    intro d q k context collector hq hp
    obtain ⟨c, hroute, hgate, hstage⟩ := (hok.deliveries d q hq).inside k (by rw [hp]; rfl)
    rw [hp] at hstage
    exact ⟨c, hroute, hgate, hstage⟩
  refine ⟨?_, ?_, fun k c r hc hr => (hok.calls k c hc).returned r hr, ?_⟩
  · rintro d d' k context context' collector collector' ⟨q, hq, hp⟩ ⟨q', hq', hp'⟩
    obtain ⟨c, hroute, hgate, -⟩ := hcalling d q k context collector hq hp
    obtain ⟨c', hroute', hgate', -⟩ := hcalling d' q' k context' collector' hq' hp'
    obtain rfl : c = c' := Option.some.inj (hroute.call.symm.trans hroute'.call)
    rw [hgate] at hgate'
    cases hgate'
    rfl
  · rintro d k context collector c ⟨q, hq, hp⟩ hc
    obtain ⟨c', hroute, -, hfresh, -⟩ := hcalling d q k context collector hq hp
    obtain rfl : c = c' := Option.some.inj (hc.symm.trans hroute.call)
    exact ⟨hfresh.succeeded, hfresh.returned⟩
  · intro d q k context collector hq hp
    obtain ⟨c, hroute, -, -, hctx, hcol⟩ := hcalling d q k context collector hq hp
    exact ⟨hroute.nearest, c, hroute.call, hroute.subStream, hcol, hctx⟩

/-- A `SubStream` that is completely built. -/
def built : ℕ → SubStreamInner := fun _ => ⟨"sub", true, true, 1, none⟩

/-- A `SubStream` is called again from its own body, and a result arrives in the inner call. -/
def nested : List (Action ℕ) :=
  let outer : Context := .new 0
  let body : Context := .inside outer 0 0
  [.consume 0 0 outer 10, .consume 1 0 body 11, .result 0 0 (.inside body 0 1) 42, .find 0,
    .enter 0, .checkDone 0, .cloneCallback 0, .checkContext 0]

theorem nested_runs : ((calls ℕ built).run State.init nested).isSome := by
  decide

/-- The inner collector runs, in the context of the outer call's body, and not the outer one. -/
theorem substream_protocol_nested :
    ∃ s, (calls ℕ built).Reachable s ∧
      ∃ q c, s.deliveries 0 = some q ∧ q.pc = .calling 1 (.inside (.new 0) 0 0) 11 ∧
        q.context.nearest 0 = some 1 ∧ s.calls 1 = some c ∧ c.succeeded = false := by
  have h := System.reachable_get nested_runs
  obtain ⟨-, hrun, -, hroute⟩ := substream_protocol built _ h
  obtain ⟨q, hq, hp⟩ : ∃ q, (((calls ℕ built).run State.init nested).get nested_runs).deliveries 0 =
      some q ∧ q.pc = .calling 1 (.inside (.new 0) 0 0) 11 := ⟨_, rfl, by decide⟩
  obtain ⟨hnear, c, hc, hsub, -⟩ := hroute 0 q 1 _ 11 hq hp
  have hs : q.subStream = 0 := by
    cases hq
    rfl
  exact ⟨_, h, q, c, hq, hp, hs ▸ hnear, hc, (hrun 0 1 _ 11 c ⟨q, hq, hp⟩ hc).1⟩

end SubStream

end ServiceLib
