import ServiceLib.History
import ServiceLib.Tally
import ServiceLib.Transition

/-!
# Requests of the sinks

Follows `consume` of the sink endpoints that handle a message in one call: the HTTP sink in
`src/datasink/http/reqwest.rs`, the unary and the server-streaming gRPC sink in
`src/datasink/grpc/nostreaming.rs` and `serverstreaming.rs`, and the custom sink in
`src/datasink/localsink/custom.rs`, which asks no peer and may have a callback. Any number of calls
run side by side on the metrics of the endpoint. The handler and the peer answer as they like, and a
call may be dropped at any `.await`.

**Theorem (`request_protocol`).** Each call goes through its handler in order. The request that is
made is the last one that was built, what arrives is handled in order, and nothing is done after the
first failure but `end_request`, which is called once, with that failure, and the callback.

**Theorem (`requests_accounted`).** The metrics count the calls. The gauge keeps those that were
dropped.

The idea: the history of a call and the place where it waits determine each other (`Call.At`), and
no call looks at another.
-/

namespace ServiceLib

namespace SinkRequest

/-! ## Calls -/

inductive Kind
  | http
  | noStreaming
  | serverStreaming
  | custom
  deriving DecidableEq

/-- One response, or none. -/
def Kind.unary : Kind → Bool
  | .http | .noStreaming => true
  | _ => false

abbrev HandlerResult := Except String Unit

section Request

variable {Req : Type}

/-- The slot of `Requester` and of `RequestSender`: a request replaces the one before. -/
def slot (requests : List Req) : Option Req := requests.foldl (fun _ request => some request) none

/-- `take_request` and `RequestSender::take`. -/
def take (kind : Kind) (requests : List Req) : Except String Req :=
  match slot requests with
  | some request => .ok request
  | none =>
    match kind with
    | .http => .error "HTTP sink handler did not create a request"
    | _ => .error "gRPC sink handler did not send a request"

end Request

/-- What has happened in a call. -/
inductive Event (T Req Res : Type)
  /-- `begin_request` has returned. -/
  | begun (ok : Bool)
  /-- `consume_message` has returned and has built these requests. -/
  | consumed (value : T) (requests : List Req) (result : HandlerResult)
  /-- The client has returned. -/
  | called (request : Req) (result : HandlerResult)
  | received (response : Res)
  /-- The stream of responses has failed. -/
  | broken (error : String)
  /-- `handle_response` has returned. -/
  | handled (response : Res) (result : HandlerResult)
  /-- `end_request` has returned. -/
  | ended (result : HandlerResult)
  /-- The callback has returned. -/
  | done (value : T) (result : HandlerResult)

/-- Where a call waits. -/
inductive Pc (Req Res : Type)
  | entering
  | beginning
  | consuming
  | calling (request : Req)
  /-- `responses.next()` -/
  | receiving
  | handling (response : Res)
  | ending (result : HandlerResult)
  | notifying (result : HandlerResult)
  | returned
  | dropped

structure Call (T Req Res : Type) where
  value : T
  pc : Pc Req Res
  /-- The guard of the response body. -/
  guard : Bool
  log : List (Event T Req Res)

/-- What a call waits for. -/
inductive Input (Req Res : Type)
  /-- Is the stream still there? -/
  | enter (alive : Bool)
  | begun (ok : Bool)
  | consumed (requests : List Req) (result : HandlerResult)
  | performed (result : Except String Res)
  /-- The stream of responses is open. -/
  | opened (result : HandlerResult)
  | received (item : Option (Except String Res))
  | handled (result : HandlerResult)
  | ended
  | notified
  | dropped

/-- What a step does to the metrics. -/
inductive Effect
  | nothing
  | beginFailed
  | started
  | finished (result : HandlerResult)

variable {T Req Res : Type}

namespace Call

def new (value : T) : Call T Req Res := ⟨value, .entering, false, []⟩

def goto (call : Call T Req Res) (pc : Pc Req Res) : Call T Req Res := { call with pc := pc }

def add (call : Call T Req Res) (e : Event T Req Res) (pc : Pc Req Res) : Call T Req Res :=
  { call with log := call.log ++ [e], pc := pc }

end Call

/-- What follows `consume_message`. -/
def afterConsume (kind : Kind) (requests : List Req) : HandlerResult → Pc Req Res
  | .error error => .ending (.error error)
  | .ok () =>
    if kind = .custom then .ending (.ok ())
    else
      match take kind requests with
      | .ok request => .calling request
      | .error error => .ending (.error error)

/-- What follows `handle_response`. -/
def afterResponse (kind : Kind) : HandlerResult → Pc Req Res
  | .error error => .ending (.error error)
  | .ok () => if kind = .serverStreaming then .receiving else .ending (.ok ())

/-- One step of a call; `callback` says that the custom sink has one. -/
def Call.step (kind : Kind) (callback : Bool) (call : Call T Req Res) :
    Input Req Res → Option (Call T Req Res × Effect)
  | .enter alive =>
    match call.pc with
    | .entering => some (call.goto (if alive then .beginning else .returned), .nothing)
    | _ => none
  | .begun ok =>
    match call.pc with
    | .beginning =>
      if ok then some (call.add (.begun true) .consuming, .started)
      -- `begin_request` of the custom sink has no error
      else if kind = .custom then none
      else some (call.add (.begun false) .returned, .beginFailed)
    | _ => none
  | .consumed requests result =>
    match call.pc with
    | .consuming =>
      some (call.add (.consumed call.value requests result) (afterConsume kind requests result),
        .nothing)
    | _ => none
  | .performed result =>
    match call.pc with
    | .calling request =>
      if kind.unary then
        match result with
        | .ok response =>
          let call := call.add (.called request (.ok ())) (.calling request)
          some ({ call.add (.received response) (.handling response) with
            guard := decide (kind = .http) }, .nothing)
        | .error error =>
          some (call.add (.called request (.error error)) (.ending (.error error)), .nothing)
      else none
    | _ => none
  | .opened result =>
    match call.pc with
    | .calling request =>
      if kind = .serverStreaming then
        match result with
        | .ok () => some (call.add (.called request (.ok ())) .receiving, .nothing)
        | .error error =>
          some (call.add (.called request (.error error)) (.ending (.error error)), .nothing)
      else none
    | _ => none
  | .received item =>
    match call.pc with
    | .receiving =>
      match item with
      | some (.ok response) => some (call.add (.received response) (.handling response), .nothing)
      | some (.error error) => some (call.add (.broken error) (.ending (.error error)), .nothing)
      | none => some (call.goto (.ending (.ok ())), .nothing)
    | _ => none
  | .handled result =>
    match call.pc with
    | .handling response =>
      some (call.add (.handled response result) (afterResponse kind result), .nothing)
    | _ => none
  | .ended =>
    match call.pc with
    | .ending result =>
      if kind = .custom ∧ callback then
        some (call.add (.ended result) (.notifying result), .nothing)
      else some ({ call.add (.ended result) .returned with guard := false }, .finished result)
    | _ => none
  | .notified =>
    match call.pc with
    | .notifying result =>
      some (call.add (.done call.value result) .returned, .finished result)
    | _ => none
  | .dropped =>
    match call.pc with
    | .entering | .returned | .dropped => none
    | _ => some ({ call with pc := .dropped, guard := false }, .nothing)

/-! ## The endpoint -/

structure Metrics where
  beginRequestFailed : ℤ
  activeRequests : ℤ
  messagesTotal : ℤ
  requestErrors : ℤ

/-- The metrics of an endpoint do nothing unless they are enabled. -/
def Metrics.apply (enabled : Bool) (m : Metrics) (e : Effect) : Metrics :=
  if enabled then
    match e with
    | .nothing => m
    | .beginFailed => { m with beginRequestFailed := m.beginRequestFailed + 1 }
    | .started => { m with activeRequests := m.activeRequests + 1 }
    | .finished (.ok ()) =>
      { m with activeRequests := m.activeRequests - 1, messagesTotal := m.messagesTotal + 1 }
    | .finished (.error _) =>
      { m with activeRequests := m.activeRequests - 1, requestErrors := m.requestErrors + 1 }
  else m

structure Config where
  kind : Kind
  metricsEnabled : Bool

structure State (T Req Res : Type) where
  calls : List (Call T Req Res)
  callback : Bool
  metrics : Metrics

inductive Action (T Req Res : Type)
  | consume (value : T)
  | setSinkCallback
  | call (i : ℕ) (input : Input Req Res)

def State.init : State T Req Res := ⟨[], false, ⟨0, 0, 0, 0⟩⟩

def step (cfg : Config) (s : State T Req Res) : Action T Req Res → Option (State T Req Res)
  | .consume value => some { s with calls := s.calls ++ [.new value] }
  | .setSinkCallback => some { s with callback := true }
  | .call i input =>
    match s.calls[i]? with
    | none => none
    | some call =>
      (call.step cfg.kind s.callback input).map fun x =>
        { s with
          calls := s.calls.set i x.1
          metrics := s.metrics.apply cfg.metricsEnabled x.2 }

def system (cfg : Config) : System (State T Req Res) (Action T Req Res) where
  init := .init
  step := step cfg

/-! ## Histories -/

section History

variable {kind : Kind} {log : List (Event T Req Res)} {e : Event T Req Res}

/-- The error with which an event ends the exchange. -/
def Event.failure (kind : Kind) : Event T Req Res → Option String
  | .consumed _ _ (.error error) => some error
  | .consumed _ requests (.ok ()) =>
    if kind = .custom then none
    else
      match take kind requests with
      | .ok _ => none
      | .error error => some error
  | .called _ (.error error) => some error
  | .broken error => some error
  | .handled _ (.error error) => some error
  | _ => none

/-- The first failure. -/
def outcome (kind : Kind) (log : List (Event T Req Res)) : HandlerResult :=
  match log.findSome? (Event.failure kind) with
  | some error => .error error
  | none => .ok ()

def Event.response? : Event T Req Res → Option Res
  | .received response => some response
  | _ => none

def Event.handled? : Event T Req Res → Option Res
  | .handled response _ => some response
  | _ => none

def Event.ended? : Event T Req Res → Option HandlerResult
  | .ended result => some result
  | _ => none

/-- The responses that have arrived. -/
def received (log : List (Event T Req Res)) : List Res := log.filterMap Event.response?

/-- The responses that were handled. -/
def handled (log : List (Event T Req Res)) : List Res := log.filterMap Event.handled?

/-- The results that `end_request` was given. -/
def results (log : List (Event T Req Res)) : List HandlerResult := log.filterMap Event.ended?

theorem outcome_concat : outcome kind (log ++ [e]) =
    match outcome kind log with
    | .error error => .error error
    | .ok () =>
      match e.failure kind with
      | some error => .error error
      | none => .ok () := by
  unfold outcome
  rw [List.findSome?_append]
  cases log.findSome? (Event.failure kind) with
  | some error => rfl
  | none =>
    rw [Option.none_or, List.findSome?_cons, List.findSome?_nil]
    cases e.failure kind <;> rfl

theorem outcome_of_none (h : outcome kind log = .ok ()) (he : e.failure kind = none) :
    outcome kind (log ++ [e]) = .ok () := by
  rw [outcome_concat, h, he]

theorem outcome_of_some {error : String} (h : outcome kind log = .ok ())
    (he : e.failure kind = some error) : outcome kind (log ++ [e]) = .error error := by
  rw [outcome_concat, h, he]

theorem received_concat : received (log ++ [e]) = received log ++ e.response?.toList := by
  unfold received
  rw [List.filterMap_append]
  cases h : e.response? <;> simp [h]

theorem handled_concat : handled (log ++ [e]) = handled log ++ e.handled?.toList := by
  unfold handled
  rw [List.filterMap_append]
  cases h : e.handled? <;> simp [h]

theorem results_concat : results (log ++ [e]) = results log ++ e.ended?.toList := by
  unfold results
  rw [List.filterMap_append]
  cases h : e.ended? <;> simp [h]

theorem head?_concat {first : Event T Req Res} (h : log.head? = some first) :
    (log ++ [e]).head? = some first := by
  rw [List.head?_append, h]
  rfl

/-- Does an event follow a failure too? -/
def Event.closing : Event T Req Res → Bool
  | .ended _ | .done _ _ => true
  | _ => false

/-- What has to have happened before an event, for a message. -/
def Allowed (kind : Kind) (value : T) (before : List (Event T Req Res)) (e : Event T Req Res) :
    Prop :=
  (e.closing = false → outcome kind before = .ok ()) ∧
  match e with
  | .begun _ => before = []
  | .consumed value' _ _ => value' = value ∧ before = [.begun true]
  | .called request _ => kind ≠ .custom ∧ ∃ requests,
      before = [.begun true, .consumed value requests (.ok ())] ∧ requests.getLast? = some request
  | .received _ => ∃ request, .called request (.ok ()) ∈ before ∧
      (kind.unary = true → before.getLast? = some (.called request (.ok ())))
  | .broken _ => kind = .serverStreaming ∧ ∃ request, .called request (.ok ()) ∈ before
  | .handled response _ => before.getLast? = some (.received response)
  | .ended result => before.head? = some (.begun true) ∧ results before = [] ∧
      result = outcome kind before
  | .done value' result => kind = .custom ∧ value' = value ∧ before.getLast? = some (.ended result)

/-- **The last request counts.** -/
theorem slot_eq_getLast? (requests : List Req) : slot requests = requests.getLast? := by
  induction requests using List.reverseRecOn with
  | nil => rfl
  | append_singleton requests request _ =>
    unfold slot
    rw [List.foldl_append, List.getLast?_concat]
    rfl

theorem getLast?_of_take {requests : List Req} {request : Req}
    (h : take kind requests = .ok request) : requests.getLast? = some request := by
  rw [← slot_eq_getLast?]
  unfold take at h
  cases hslot : slot requests with
  | none =>
    rw [hslot] at h
    cases kind <;> cases h
  | some last =>
    rw [hslot] at h
    cases h
    rfl

end History

/-! ## What a step does -/

/-- The steps of a call. -/
inductive Moves (kind : Kind) (call : Call T Req Res) : Call T Req Res → Effect → Prop
  | entered (alive : Bool) (hpc : call.pc = .entering) :
    Moves kind call (call.goto (if alive then .beginning else .returned)) .nothing
  | begun (hpc : call.pc = .beginning) :
    Moves kind call (call.add (.begun true) .consuming) .started
  | refused (hpc : call.pc = .beginning) :
    Moves kind call (call.add (.begun false) .returned) .beginFailed
  | consumed (requests : List Req) (result : HandlerResult) (hpc : call.pc = .consuming) :
    Moves kind call
      (call.add (.consumed call.value requests result) (afterConsume kind requests result)) .nothing
  | performed (request : Req) (response : Res) (hpc : call.pc = .calling request)
      (hkind : kind.unary = true) :
    Moves kind call { (call.add (.called request (.ok ())) (.calling request)).add
      (.received response) (.handling response) with guard := decide (kind = .http) } .nothing
  | opened (request : Req) (hpc : call.pc = .calling request) (hkind : kind = .serverStreaming) :
    Moves kind call (call.add (.called request (.ok ())) .receiving) .nothing
  | failed (request : Req) (error : String) (hpc : call.pc = .calling request) :
    Moves kind call (call.add (.called request (.error error)) (.ending (.error error))) .nothing
  | received (response : Res) (hpc : call.pc = .receiving) :
    Moves kind call (call.add (.received response) (.handling response)) .nothing
  | broken (error : String) (hpc : call.pc = .receiving) :
    Moves kind call (call.add (.broken error) (.ending (.error error))) .nothing
  | exhausted (hpc : call.pc = .receiving) : Moves kind call (call.goto (.ending (.ok ()))) .nothing
  | handled (response : Res) (result : HandlerResult) (hpc : call.pc = .handling response) :
    Moves kind call (call.add (.handled response result) (afterResponse kind result)) .nothing
  | notifying (result : HandlerResult) (hpc : call.pc = .ending result) (hkind : kind = .custom) :
    Moves kind call (call.add (.ended result) (.notifying result)) .nothing
  | ended (result : HandlerResult) (hpc : call.pc = .ending result) :
    Moves kind call { call.add (.ended result) .returned with guard := false } (.finished result)
  | notified (result : HandlerResult) (hpc : call.pc = .notifying result) :
    Moves kind call (call.add (.done call.value result) .returned) (.finished result)
  | dropped (hentering : call.pc ≠ .entering) (hreturned : call.pc ≠ .returned) :
    Moves kind call { call with pc := .dropped, guard := false } .nothing

theorem moves {kind : Kind} {callback : Bool} {call call' : Call T Req Res} {effect : Effect}
    {input : Input Req Res} (h : call.step kind callback input = some (call', effect)) :
    Moves kind call call' effect := by
  cases input with
  | enter alive =>
    simp only [Call.step] at h
    split at h <;> cases h
    exact .entered alive ‹_›
  | begun ok =>
    simp only [Call.step] at h
    split at h
    · split_ifs at h <;> cases h
      · exact .begun ‹_›
      · exact .refused ‹_›
    · cases h
  | consumed requests result =>
    simp only [Call.step] at h
    split at h <;> cases h
    exact .consumed requests result ‹_›
  | performed result =>
    simp only [Call.step] at h
    split at h
    · split_ifs at h with hkind
      split at h <;> cases h
      · exact .performed _ _ ‹_› hkind
      · exact .failed _ _ ‹_›
    · cases h
  | opened result =>
    simp only [Call.step] at h
    split at h
    · split_ifs at h with hkind
      split at h <;> cases h
      · exact .opened _ ‹_› hkind
      · exact .failed _ _ ‹_›
    · cases h
  | received item =>
    simp only [Call.step] at h
    split at h
    · split at h <;> cases h
      · exact .received _ ‹_›
      · exact .broken _ ‹_›
      · exact .exhausted ‹_›
    · cases h
  | handled result =>
    simp only [Call.step] at h
    split at h <;> cases h
    exact .handled _ result ‹_›
  | ended =>
    simp only [Call.step] at h
    split at h
    · split_ifs at h with hcallback <;> cases h
      · exact .notifying _ ‹_› hcallback.1
      · exact .ended _ ‹_›
    · cases h
  | notified =>
    simp only [Call.step] at h
    split at h <;> cases h
    exact .notified _ ‹_›
  | dropped =>
    simp only [Call.step] at h
    split at h <;> cases h
    exact .dropped ‹_› ‹_›

/-! ## One call -/

/-- The exchange with the peer is going on. -/
structure Open (kind : Kind) (log : List (Event T Req Res)) : Prop where
  started : log.head? = some (.begun true)
  unfailed : outcome kind log = .ok ()
  unended : results log = []

/-- What the place where a call waits says about its history. -/
def Call.At (kind : Kind) (call : Call T Req Res) : Prop :=
  match call.pc with
  | .entering | .beginning => call.log = []
  | .consuming => call.log = [.begun true]
  | .calling request => kind ≠ .custom ∧ ∃ requests,
      call.log = [.begun true, .consumed call.value requests (.ok ())] ∧
        take kind requests = .ok request
  | .receiving => Open kind call.log ∧ kind = .serverStreaming ∧
      ∃ request, .called request (.ok ()) ∈ call.log
  | .handling response => Open kind call.log ∧ call.log.getLast? = some (.received response) ∧
      ∃ request, .called request (.ok ()) ∈ call.log
  | .ending result => call.log.head? = some (.begun true) ∧ results call.log = [] ∧
      result = outcome kind call.log
  | .notifying result => kind = .custom ∧ call.log.head? = some (.begun true) ∧
      results call.log = [result] ∧ call.log.getLast? = some (.ended result)
  | .returned => call.log = [] ∨ call.log = [.begun false] ∨
      (call.log.head? = some (.begun true) ∧ ∃ result, results call.log = [result])
  | .dropped => (results call.log).length ≤ 1

/-- The response that is being handled. -/
def Pc.response : Pc Req Res → Option Res
  | .handling response => some response
  | _ => none

/-- Does the call go on? -/
def Pc.live : Pc Req Res → Bool
  | .returned | .dropped => false
  | _ => true

structure Call.Ok (kind : Kind) (call : Call T Req Res) : Prop where
  each : Each (Allowed kind call.value) call.log
  place : call.At kind
  responses : received call.log = handled call.log ++ call.pc.response.toList ∨
    call.pc = .dropped ∧ handled call.log <+: received call.log
  guard : call.guard = (decide (kind = .http) && !(received call.log).isEmpty && call.pc.live)

section Call

variable {kind : Kind} {log : List (Event T Req Res)} {call call' : Call T Req Res}
  {e : Event T Req Res} {pc : Pc Req Res} {effect : Effect}

theorem Open.concat (h : Open kind log) (hfailure : e.failure kind = none)
    (hended : e.ended? = none) : Open kind (log ++ [e]) where
  started := head?_concat h.started
  unfailed := outcome_of_none h.unfailed hfailure
  unended := by rw [results_concat, h.unended, hended]; rfl

/-- The exchange ends, with the failure of its last event. -/
theorem Open.fails {error : String} (h : Open kind log) (hfailure : e.failure kind = some error)
    (hended : e.ended? = none) :
    (log ++ [e]).head? = some (.begun true) ∧ results (log ++ [e]) = [] ∧
      .error error = outcome kind (log ++ [e]) := by
  refine ⟨head?_concat h.started, ?_, (outcome_of_some h.unfailed hfailure).symm⟩
  · rw [results_concat, h.unended, hended]
    rfl

theorem Open.ends (h : Open kind log) :
    log.head? = some (.begun true) ∧ results log = [] ∧ .ok () = outcome kind log :=
  ⟨h.started, h.unended, h.unfailed.symm⟩

theorem open_begun : Open kind ([.begun true] : List (Event T Req Res)) := ⟨rfl, rfl, rfl⟩

/-- `end_request` is called at most once. -/
theorem Call.At.results_le (h : call.At kind) : (results call.log).length ≤ 1 := by
  unfold Call.At at h
  cases hpc : call.pc <;> rw [hpc] at h
  case entering | beginning | consuming =>
    rw [h]
    exact Nat.zero_le _
  case calling =>
    obtain ⟨-, requests, hlog, -⟩ := h
    rw [hlog]
    exact Nat.zero_le _
  case receiving | handling =>
    rw [h.1.unended]
    exact Nat.zero_le _
  case ending =>
    rw [h.2.1]
    exact Nat.zero_le _
  case notifying => rw [h.2.2.1, List.length_singleton]
  case returned =>
    rcases h with hlog | hlog | ⟨-, result, hresults⟩
    · rw [hlog]
      exact Nat.zero_le _
    · rw [hlog]
      exact Nat.zero_le _
    · rw [hresults, List.length_singleton]
  case dropped => exact h

theorem Call.Ok.new (value : T) : (Call.new value : Call T Req Res).Ok kind where
  each := each_nil
  place := rfl
  responses := .inl rfl
  guard := by
    show false = (decide (kind = .http) && false && true)
    rw [Bool.and_false, Bool.false_and]

theorem Call.Ok.guard_of_nil (h : call.Ok kind) (hlog : call.log = []) : call.guard = false := by
  rw [h.guard, hlog]
  show (decide (kind = .http) && false && _) = false
  rw [Bool.and_false, Bool.false_and]

/-- One event, which is neither the arrival of a response nor the end. -/
theorem Call.Ok.guard_concat (h : call.Ok kind) (he : e.response? = none)
    (hlive : pc.live = call.pc.live) :
    call.guard = (decide (kind = .http) && !(received (call.log ++ [e])).isEmpty && pc.live) := by
  rw [received_concat, he, Option.toList_none, List.append_nil, hlive]
  exact h.guard

theorem Call.Ok.balance (h : call.Ok kind) (hpc : call.pc ≠ .dropped)
    (hbalance : call.pc.response.toList ++ e.response?.toList =
      e.handled?.toList ++ pc.response.toList) :
    received (call.log ++ [e]) = handled (call.log ++ [e]) ++ pc.response.toList := by
  rcases h.responses with hresponses | ⟨hdropped, -⟩
  · rw [received_concat, handled_concat, hresponses, List.append_assoc, hbalance,
      List.append_assoc]
  · exact absurd hdropped hpc

theorem Call.Ok.add (h : call.Ok kind) (hpc : call.pc ≠ .dropped)
    (hallowed : Allowed kind call.value call.log e) (hplace : (call.add e pc).At kind)
    (hbalance : call.pc.response.toList ++ e.response?.toList =
      e.handled?.toList ++ pc.response.toList)
    (hguard : call.guard =
      (decide (kind = .http) && !(received (call.log ++ [e])).isEmpty && pc.live)) :
    (call.add e pc).Ok kind where
  each := each_concat.mpr ⟨h.each, hallowed⟩
  place := hplace
  responses := .inl (h.balance hpc hbalance)
  guard := hguard

/-- `consume_message` returns. -/
theorem at_consumed (hlog : call.log = [.begun true]) (requests : List Req)
    (result : HandlerResult) :
    (call.add (.consumed call.value requests result) (afterConsume kind requests result)).At
      kind := by
  have hopen : Open kind call.log := hlog ▸ open_begun
  cases result with
  | error error => exact hopen.fails rfl rfl
  | ok u =>
    unfold afterConsume
    dsimp only
    split_ifs with hkind
    · exact (hopen.concat (by simp only [Event.failure, if_pos hkind]) rfl).ends
    · cases htake : take kind requests with
      | error error => exact hopen.fails (by simp only [Event.failure, if_neg hkind, htake]) rfl
      | ok request => exact ⟨hkind, requests, congrArg (· ++ _) hlog, htake⟩

/-- `handle_response` returns. -/
theorem at_handled (hopen : Open kind call.log)
    (hcalled : ∃ request, .called request (.ok ()) ∈ call.log) (response : Res)
    (result : HandlerResult) :
    (call.add (.handled response result) (afterResponse kind result)).At kind := by
  cases result with
  | error error => exact hopen.fails rfl rfl
  | ok u =>
    unfold afterResponse
    dsimp only
    split_ifs with hkind
    · obtain ⟨request, hmem⟩ := hcalled
      exact ⟨hopen.concat rfl rfl, hkind, request, List.mem_append_left _ hmem⟩
    · exact (hopen.concat rfl rfl).ends

/-- The peer is asked as long as nothing has failed. -/
theorem open_consumed {value : T} {requests : List Req} {request : Req} (hkind : kind ≠ .custom)
    (htake : take kind requests = .ok request) :
    Open kind ([.begun true, .consumed value requests (.ok ())] : List (Event T Req Res)) := by
  refine open_begun.concat (e := .consumed value requests (.ok ())) ?_ rfl
  simp only [Event.failure, if_neg hkind, htake]

theorem afterConsume_waits (requests : List Req) (result : HandlerResult) :
    (afterConsume kind requests result : Pc Req Res).response = none ∧
      (afterConsume kind requests result : Pc Req Res).live = true := by
  unfold afterConsume
  cases result with
  | error error => exact ⟨rfl, rfl⟩
  | ok u =>
    dsimp only
    split_ifs
    · exact ⟨rfl, rfl⟩
    · cases take kind requests <;> exact ⟨rfl, rfl⟩

theorem afterResponse_waits (result : HandlerResult) :
    (afterResponse kind result : Pc Req Res).response = none ∧
      (afterResponse kind result : Pc Req Res).live = true := by
  unfold afterResponse
  cases result with
  | error error => exact ⟨rfl, rfl⟩
  | ok u =>
    dsimp only
    split_ifs <;> exact ⟨rfl, rfl⟩

/-- The call to the peer is allowed, whatever its result. -/
theorem Call.Ok.calling (h : call.Ok kind) {request : Req} (hpc : call.pc = .calling request) :
    Open kind call.log ∧
      ∀ result, Allowed kind call.value call.log (.called request result) := by
  have hplace := h.place
  unfold Call.At at hplace
  rw [hpc] at hplace
  obtain ⟨hcustom, requests, hlog, htake⟩ := hplace
  have hopen : Open kind call.log := hlog ▸ open_consumed hcustom htake
  exact ⟨hopen, fun _ => ⟨fun _ => hopen.unfailed, hcustom, requests, hlog,
    getLast?_of_take htake⟩⟩

theorem Call.Ok.step (h : call.Ok kind) (hm : Moves kind call call' effect) : call'.Ok kind := by
  have hplace' := h.place
  have hplace := hplace'
  unfold Call.At at hplace
  cases hm with
  | entered alive hpc =>
    rw [hpc] at hplace
    refine ⟨?_, ?_, .inl ?_, ?_⟩
    · show Each _ call.log
      rw [hplace]
      exact each_nil
    · cases alive
      · exact .inl hplace
      · exact hplace
    · show received call.log = handled call.log ++ _
      rw [hplace]
      cases alive <;> rfl
    · show call.guard = (_ && !(received call.log).isEmpty && _)
      rw [h.guard_of_nil hplace, hplace]
      exact (Bool.and_eq_false_imp.mpr fun hhttp => by simp [received] at hhttp).symm
  | begun hpc =>
    rw [hpc] at hplace
    refine h.add (by rw [hpc]; simp) ⟨fun _ => ?_, hplace⟩ ?_ (by rw [hpc]; rfl)
      (h.guard_concat rfl (by rw [hpc]; rfl))
    · rw [hplace]
      rfl
    · show call.log ++ [.begun true] = [.begun true]
      rw [hplace, List.nil_append]
  | refused hpc =>
    rw [hpc] at hplace
    refine h.add (by rw [hpc]; simp) ⟨fun _ => ?_, hplace⟩ ?_ (by rw [hpc]; rfl) ?_
    · rw [hplace]
      rfl
    · exact .inr (.inl (by rw [Call.add, hplace, List.nil_append]))
    · rw [h.guard_of_nil hplace]
      exact (Bool.and_false _).symm
  | consumed requests result hpc =>
    rw [hpc] at hplace
    refine h.add (by rw [hpc]; simp) ⟨fun _ => ?_, rfl, hplace⟩ (at_consumed hplace requests result)
      ?_ (h.guard_concat rfl ?_)
    · rw [hplace]
      rfl
    · rw [(afterConsume_waits requests result).1, hpc]
      rfl
    · rw [(afterConsume_waits requests result).2, hpc]
      rfl
  | performed request response hpc hkind =>
    obtain ⟨hopen, hcalled⟩ := h.calling hpc
    have hopen' := hopen.concat (e := .called request (.ok ())) rfl rfl
    have hmem : (.called request (.ok ()) : Event T Req Res) ∈
        call.log ++ [.called request (.ok ())] := List.mem_append_right _ List.mem_cons_self
    have hreceived : Allowed kind call.value (call.log ++ [.called request (.ok ())])
        (.received response) :=
      ⟨fun _ => hopen'.unfailed, request, hmem, fun _ => List.getLast?_concat⟩
    refine ⟨each_concat.mpr ⟨each_concat.mpr ⟨h.each, hcalled _⟩, hreceived⟩, ?_, .inl ?_, ?_⟩
    · exact ⟨hopen'.concat rfl rfl, List.getLast?_concat, request, List.mem_append_left _ hmem⟩
    · have hbalance : received (call.log ++ [.called request (.ok ())]) =
          handled (call.log ++ [.called request (.ok ())]) ++
            (Pc.calling request).response.toList :=
        h.balance (by rw [hpc]; simp) (by rw [hpc]; rfl)
      have hhandled : handled (call.log ++ [.called request (.ok ())] ++ [.received response]) =
          handled (call.log ++ [.called request (.ok ())]) ++ [] := handled_concat
      show received (call.log ++ [_] ++ [.received response]) =
        handled (call.log ++ [_] ++ [.received response]) ++ [response]
      rw [received_concat, hbalance, hhandled]
      rfl
    · show decide (kind = .http) =
        (_ && !(received (call.log ++ [_] ++ [.received response])).isEmpty && true)
      rw [received_concat]
      simp [Event.response?]
  | opened request hpc hkind =>
    obtain ⟨hopen, hcalled⟩ := h.calling hpc
    refine h.add (by rw [hpc]; simp) (hcalled _)
      ⟨hopen.concat rfl rfl, hkind, request, List.mem_append_right _ List.mem_cons_self⟩
      (by rw [hpc]; rfl) (h.guard_concat rfl (by rw [hpc]; rfl))
  | failed request error hpc =>
    obtain ⟨hopen, hcalled⟩ := h.calling hpc
    exact h.add (by rw [hpc]; simp) (hcalled _) (hopen.fails rfl rfl) (by rw [hpc]; rfl)
      (h.guard_concat rfl (by rw [hpc]; rfl))
  | received response hpc =>
    rw [hpc] at hplace
    obtain ⟨hopen, hkind, request, hcalled⟩ := hplace
    refine h.add (by rw [hpc]; simp) ⟨fun _ => hopen.unfailed, request, hcalled, fun hunary => ?_⟩
      ⟨hopen.concat rfl rfl, List.getLast?_concat, request, List.mem_append_left _ hcalled⟩
      (by rw [hpc]; rfl) ?_
    · rw [hkind] at hunary
      cases hunary
    · rw [h.guard, hkind]
      rfl
  | broken error hpc =>
    rw [hpc] at hplace
    obtain ⟨hopen, hkind, hcalled⟩ := hplace
    exact h.add (by rw [hpc]; simp) ⟨fun _ => hopen.unfailed, hkind, hcalled⟩ (hopen.fails rfl rfl)
      (by rw [hpc]; rfl) (h.guard_concat rfl (by rw [hpc]; rfl))
  | exhausted hpc =>
    rw [hpc] at hplace
    obtain ⟨hopen, hkind, hcalled⟩ := hplace
    have hresponses := h.responses
    have hguard := h.guard
    rw [hpc] at hresponses hguard
    refine ⟨h.each, hopen.ends, .inl ?_, hguard⟩
    rcases hresponses with hresponses | ⟨hdropped, -⟩
    · exact hresponses
    · cases hdropped
  | handled response result hpc =>
    rw [hpc] at hplace
    obtain ⟨hopen, hlast, hcalled⟩ := hplace
    refine h.add (by rw [hpc]; simp) ⟨fun _ => hopen.unfailed, hlast⟩
      (at_handled hopen hcalled response result) ?_ (h.guard_concat rfl ?_)
    · rw [(afterResponse_waits result).1, hpc]
      rfl
    · rw [(afterResponse_waits result).2, hpc]
      rfl
  | notifying result hpc hkind =>
    rw [hpc] at hplace
    obtain ⟨hbegun, hresults, hresult⟩ := hplace
    refine h.add (by rw [hpc]; simp) ⟨fun hclosing => ?_, hbegun, hresults, hresult⟩
      ⟨hkind, head?_concat hbegun, ?_, List.getLast?_concat⟩ (by rw [hpc]; rfl)
      (h.guard_concat rfl (by rw [hpc]; rfl))
    · cases hclosing
    · show results (call.log ++ [.ended result]) = [result]
      rw [results_concat, hresults]
      rfl
  | ended result hpc =>
    rw [hpc] at hplace
    obtain ⟨hbegun, hresults, hresult⟩ := hplace
    have hallowed : Allowed kind call.value call.log (.ended result) := by
      refine ⟨fun hclosing => ?_, hbegun, hresults, hresult⟩
      cases hclosing
    refine ⟨each_concat.mpr ⟨h.each, hallowed⟩, .inr (.inr ⟨head?_concat hbegun, result, ?_⟩),
      .inl ?_, ?_⟩
    · show results (call.log ++ [.ended result]) = [result]
      rw [results_concat, hresults]
      rfl
    · exact h.balance (by rw [hpc]; simp) (by rw [hpc]; rfl)
    · show false = (_ && false)
      rw [Bool.and_false]
  | notified result hpc =>
    rw [hpc] at hplace
    obtain ⟨hkind, hbegun, hresults, hlast⟩ := hplace
    refine h.add (by rw [hpc]; simp) ⟨fun hclosing => ?_, hkind, rfl, hlast⟩
      (.inr (.inr ⟨head?_concat hbegun, result, ?_⟩)) (by rw [hpc]; rfl) ?_
    · cases hclosing
    · show results (call.log ++ [.done call.value result]) = [result]
      rw [results_concat, hresults]
      rfl
    · rw [h.guard, hkind]
      rfl
  | dropped hentering hreturned =>
    refine ⟨h.each, ?_, .inr ⟨rfl, ?_⟩, ?_⟩
    · exact hplace'.results_le
    · rcases h.responses with hresponses | ⟨-, hfront⟩
      · exact ⟨_, hresponses.symm⟩
      · exact hfront
    · show false = (_ && false)
      rw [Bool.and_false]

end Call

/-! ## What the metrics see of a call -/

/-- The stages of a request. -/
inductive Stage
  | idle
  | refused
  | active
  | answered (result : HandlerResult)
  deriving DecidableEq

def Call.stage (call : Call T Req Res) : Stage :=
  match call.log.head? with
  | none => .idle
  | some (.begun false) => .refused
  | some _ =>
    match call.pc, (results call.log).head? with
    | .returned, some result => .answered result
    | _, _ => .active

def Stage.failed : Stage → Bool
  | .answered (.error _) => true
  | _ => false

/-- What the metrics count. -/
def Effect.moves : Effect → Stage → Stage → Prop
  | .nothing => fun stage stage' => stage' = stage
  | .beginFailed => fun stage stage' => stage = .idle ∧ stage' = .refused
  | .started => fun stage stage' => stage = .idle ∧ stage' = .active
  | .finished result => fun stage stage' => stage = .active ∧ stage' = .answered result

section Stage

variable {kind : Kind} {call call' : Call T Req Res} {effect : Effect}

theorem stage_of_nil (h : call.log = []) : call.stage = .idle := by
  unfold Call.stage
  rw [h]
  rfl

theorem stage_of_begun (h : call.log.head? = some (.begun true)) (hpc : call.pc ≠ .returned) :
    call.stage = .active := by
  unfold Call.stage
  rw [h]
  cases hcall : call.pc
  case returned => exact absurd hcall hpc
  all_goals rfl

theorem stage_of_results {result : HandlerResult} (h : call.log.head? = some (.begun true))
    (hpc : call.pc = .returned) (hresults : results call.log = [result]) :
    call.stage = .answered result := by
  unfold Call.stage
  rw [h, hpc, hresults]
  rfl

/-- A request that is under way takes part in another event. -/
theorem stage_add {e : Event T Req Res} {pc : Pc Req Res}
    (h : call.log.head? = some (.begun true)) (hpc : call.pc ≠ .returned) (hpc' : pc ≠ .returned) :
    (call.add e pc).stage = call.stage := by
  rw [stage_of_begun h hpc]
  exact stage_of_begun (head?_concat h) hpc'

theorem ne_returned_of_live {pc : Pc Req Res} (h : pc.live = true) : pc ≠ .returned := by
  intro hpc
  rw [hpc] at h
  cases h

theorem stage_dropped : ({ call with pc := .dropped, guard := false } : Call T Req Res).stage =
    match call.log.head? with
    | none => .idle
    | some (.begun false) => .refused
    | some _ => .active := by
  unfold Call.stage
  cases call.log.head? with
  | none => rfl
  | some e =>
    cases e with
    | begun ok => cases ok <;> rfl
    | _ => rfl

theorem Moves.stages (h : call.Ok kind) (hm : Moves kind call call' effect) :
    effect.moves call.stage call'.stage := by
  have hplace := h.place
  unfold Call.At at hplace
  cases hm with
  | entered alive hpc =>
    rw [hpc] at hplace
    show (call.goto _).stage = call.stage
    rw [stage_of_nil hplace]
    exact stage_of_nil hplace
  | begun hpc =>
    rw [hpc] at hplace
    refine ⟨stage_of_nil hplace, stage_of_begun ?_ (by rintro ⟨⟩)⟩
    rw [Call.add, hplace]
    rfl
  | refused hpc =>
    rw [hpc] at hplace
    refine ⟨stage_of_nil hplace, ?_⟩
    unfold Call.stage
    rw [Call.add, hplace]
    rfl
  | consumed requests result hpc =>
    rw [hpc] at hplace
    have hhead : call.log.head? = some (.begun true) := by rw [hplace]; rfl
    refine stage_add hhead (ne_returned_of_live (by rw [hpc]; rfl)) ?_
    exact ne_returned_of_live (afterConsume_waits requests result).2
  | performed request response hpc hkind =>
    rw [hpc] at hplace
    obtain ⟨-, requests, hlog, -⟩ := hplace
    have hhead : call.log.head? = some (.begun true) := by rw [hlog]; rfl
    show _ = call.stage
    rw [stage_of_begun hhead (ne_returned_of_live (by rw [hpc]; rfl))]
    exact stage_of_begun (head?_concat (head?_concat hhead)) (ne_returned_of_live rfl)
  | opened request hpc _ | failed request error hpc =>
    rw [hpc] at hplace
    obtain ⟨-, requests, hlog, -⟩ := hplace
    have hhead : call.log.head? = some (.begun true) := by rw [hlog]; rfl
    exact stage_add hhead (ne_returned_of_live (by rw [hpc]; rfl)) (ne_returned_of_live rfl)
  | received response hpc | broken error hpc =>
    rw [hpc] at hplace
    exact stage_add hplace.1.started (ne_returned_of_live (by rw [hpc]; rfl))
      (ne_returned_of_live rfl)
  | exhausted hpc =>
    rw [hpc] at hplace
    have hstage := stage_of_begun hplace.1.started (ne_returned_of_live (by rw [hpc]; rfl))
    show (call.goto _).stage = call.stage
    rw [hstage]
    exact stage_of_begun hplace.1.started (ne_returned_of_live rfl)
  | handled response result hpc =>
    rw [hpc] at hplace
    exact stage_add hplace.1.started (ne_returned_of_live (by rw [hpc]; rfl))
      (ne_returned_of_live (afterResponse_waits result).2)
  | notifying result hpc hkind =>
    rw [hpc] at hplace
    exact stage_add hplace.1 (ne_returned_of_live (by rw [hpc]; rfl)) (ne_returned_of_live rfl)
  | ended result hpc =>
    rw [hpc] at hplace
    obtain ⟨hbegun, hresults, -⟩ := hplace
    refine ⟨stage_of_begun hbegun (ne_returned_of_live (by rw [hpc]; rfl)),
      stage_of_results (head?_concat hbegun) rfl ?_⟩
    show results (call.log ++ [.ended result]) = [result]
    rw [results_concat, hresults]
    rfl
  | notified result hpc =>
    rw [hpc] at hplace
    obtain ⟨-, hbegun, hresults, -⟩ := hplace
    refine ⟨stage_of_begun hbegun (ne_returned_of_live (by rw [hpc]; rfl)),
      stage_of_results (head?_concat hbegun) rfl ?_⟩
    show results (call.log ++ [.done call.value result]) = [result]
    rw [results_concat, hresults]
    rfl
  | dropped hentering hreturned =>
    show _ = call.stage
    rw [stage_dropped]
    unfold Call.stage
    cases call.log.head? with
    | none => rfl
    | some e =>
      cases hpc : call.pc
      case returned => exact absurd hpc hreturned
      all_goals
        cases e with
        | begun ok => cases ok <;> rfl
        | _ => rfl

end Stage

/-! ## All calls -/

section Endpoint

variable {cfg : Config} {s : State T Req Res}

theorem calls_ok (h : (system cfg).Reachable s) : ∀ call ∈ s.calls, call.Ok cfg.kind := by
  refine h.invariant (I := fun s : State T Req Res => ∀ call ∈ s.calls, call.Ok cfg.kind)
    (fun call hcall => absurd hcall List.not_mem_nil) fun s a t hs ht => ?_
  cases a with
  | consume value =>
    cases ht
    exact forall_mem_concat hs (.new value)
  | setSinkCallback =>
    cases ht
    exact hs
  | call i input =>
    simp only [system, SinkRequest.step] at ht
    split at ht
    · cases ht
    · rename_i call hcall
      obtain ⟨x, hx, rfl⟩ := Option.map_eq_some_iff.mp ht
      exact forall_mem_set hs ((hs call (List.mem_of_getElem? hcall)).step (moves hx)) i

theorem apply_moves {effect : Effect} {stage stage' : Stage} (m : Metrics)
    (h : effect.moves stage stage') :
    (m.apply true effect).beginRequestFailed = m.beginRequestFailed -
        (if stage = .refused then 1 else 0) + (if stage' = .refused then 1 else 0) ∧
    (m.apply true effect).activeRequests = m.activeRequests -
        (if stage = .active then 1 else 0) + (if stage' = .active then 1 else 0) ∧
    (m.apply true effect).messagesTotal = m.messagesTotal -
        (if stage = .answered (.ok ()) then 1 else 0) +
        (if stage' = .answered (.ok ()) then 1 else 0) ∧
    (m.apply true effect).requestErrors = m.requestErrors -
        (if stage.failed then 1 else 0) + (if stage'.failed then 1 else 0) := by
  cases effect with
  | nothing =>
    cases h
    simp [Metrics.apply]
  | beginFailed =>
    obtain ⟨rfl, rfl⟩ := h
    simp [Metrics.apply, Stage.failed]
  | started =>
    obtain ⟨rfl, rfl⟩ := h
    simp [Metrics.apply, Stage.failed]
  | finished result =>
    obtain ⟨rfl, rfl⟩ := h
    cases result with
    | ok u => simp [Metrics.apply, Stage.failed]
    | error error => simp [Metrics.apply, Stage.failed]

/-- A metric that counts the calls of some stage. -/
theorem counted (henabled : cfg.metricsEnabled = true) (metric : Metrics → ℤ) (p : Stage → Bool)
    (hinit : metric ⟨0, 0, 0, 0⟩ = 0) (hidle : p .idle = false)
    (hmetric : ∀ m effect stage stage', effect.moves stage stage' →
      metric (m.apply true effect) =
        metric m - (if p stage then 1 else 0) + (if p stage' then 1 else 0))
    (h : (system cfg).Reachable s) :
    metric s.metrics = s.calls.countP fun call => p call.stage := by
  rw [← sum_map_eq_countP fun _ _ => rfl]
  refine (h.invariant (I := fun s : State T Req Res => (system cfg).Reachable s ∧
    metric s.metrics = (s.calls.map fun call => if p call.stage then (1 : ℤ) else 0).sum)
    ⟨.init, hinit⟩ fun s a t hs ht => ⟨hs.1.next ht, ?_⟩).2
  cases a with
  | consume value =>
    cases ht
    show metric s.metrics = _
    rw [hs.2, sum_map_concat, stage_of_nil rfl, hidle]
    exact (add_zero _).symm
  | setSinkCallback =>
    cases ht
    exact hs.2
  | call i input =>
    simp only [system, SinkRequest.step] at ht
    split at ht
    · cases ht
    · rename_i call hcall
      obtain ⟨x, hx, rfl⟩ := Option.map_eq_some_iff.mp ht
      have hstages := (moves hx).stages (calls_ok hs.1 call (List.mem_of_getElem? hcall))
      show metric (s.metrics.apply cfg.metricsEnabled x.2) = _
      rw [henabled, hmetric _ _ _ _ hstages, hs.2, sum_map_set _ hcall]

theorem metrics_disabled (hdisabled : cfg.metricsEnabled = false)
    (h : (system cfg).Reachable s) : s.metrics = ⟨0, 0, 0, 0⟩ := by
  refine h.invariant (I := fun s : State T Req Res => s.metrics = ⟨0, 0, 0, 0⟩) rfl
    fun s a t hs ht => ?_
  cases a with
  | consume value | setSinkCallback =>
    cases ht
    exact hs
  | call i input =>
    simp only [system, SinkRequest.step] at ht
    split at ht
    · cases ht
    · obtain ⟨x, hx, rfl⟩ := Option.map_eq_some_iff.mp ht
      show s.metrics.apply cfg.metricsEnabled x.2 = _
      rw [hdisabled, hs]
      rfl

end Endpoint

/-- **Each request goes through its handler in order.** In every run, whatever the handler, the
peer and the callback answer and whichever calls are dropped: every event of a call has what it
needs before it, so that no step follows a failure but `end_request`, which is given the first
failure, and the callback. `end_request` is called at most once, and once by a call that has begun
and returns. The responses are handled in the order in which they arrive, all of them unless the
call is dropped. The body of an HTTP response is kept open until `end_request` has returned or the
call is dropped. -/
theorem request_protocol (cfg : Config) (s : State T Req Res) (h : (system cfg).Reachable s)
    (call : Call T Req Res) (hcall : call ∈ s.calls) :
    Each (Allowed cfg.kind call.value) call.log ∧
    (results call.log).length ≤ 1 ∧
    (call.pc = .returned → call.log.head? = some (.begun true) →
      ∃ result, results call.log = [result]) ∧
    handled call.log <+: received call.log ∧
    (call.pc = .returned → handled call.log = received call.log) ∧
    call.guard = (decide (cfg.kind = .http) && !(received call.log).isEmpty && call.pc.live) := by
  have hok := calls_ok h call hcall
  have hplace := hok.place
  refine ⟨hok.each, hplace.results_le, fun hpc hbegun => ?_, ?_, fun hpc => ?_, hok.guard⟩
  · unfold Call.At at hplace
    rw [hpc] at hplace
    rcases hplace with hlog | hlog | ⟨-, hresults⟩
    · rw [hlog] at hbegun
      cases hbegun
    · rw [hlog] at hbegun
      cases hbegun
    · exact hresults
  · rcases hok.responses with hresponses | ⟨-, hfront⟩
    · exact ⟨_, hresponses.symm⟩
    · exact hfront
  · rcases hok.responses with hresponses | ⟨hdropped, -⟩
    · rw [hresponses, hpc]
      exact (List.append_nil _).symm
    · rw [hpc] at hdropped
      cases hdropped

/-- Two messages: the second response of the first is handled with an error, and the call of the
second is dropped. -/
def twoMessages : List (Action ℕ ℕ ℕ) :=
  [.consume 7, .consume 8, .call 0 (.enter true), .call 0 (.begun true), .call 1 (.enter true),
    .call 0 (.consumed [70, 71] (.ok ())), .call 0 (.opened (.ok ())), .call 1 (.begun true),
    .call 0 (.received (some (.ok 1))), .call 0 (.handled (.ok ())), .call 1 .dropped,
    .call 0 (.received (some (.ok 2))), .call 0 (.handled (.error "full")), .call 0 .ended]

theorem twoMessages_runs :
    ((system ⟨.serverStreaming, true⟩).run State.init twoMessages).isSome := by
  decide

def streamed : State ℕ ℕ ℕ :=
  ((system ⟨.serverStreaming, true⟩).run State.init twoMessages).get twoMessages_runs

theorem streamed_reachable : (system ⟨.serverStreaming, true⟩).Reachable streamed :=
  System.reachable_get twoMessages_runs

/-- The request is the second one that was built, and `end_request` gets the error of the second
response. -/
theorem request_protocol_twoMessages :
    ∃ call ∈ streamed.calls, call.value = 7 ∧ .called 71 (.ok ()) ∈ call.log ∧
      results call.log = [.error "full"] ∧ handled call.log = [1, 2] ∧
      Each (Allowed .serverStreaming 7) call.log := by
  have hmem : streamed.calls.get ⟨0, by decide⟩ ∈ streamed.calls := List.get_mem _ _
  refine ⟨_, hmem, by decide, ?_, by decide, by decide, ?_⟩
  · show _ ∈ [Event.begun true, .consumed 7 [70, 71] (.ok ()), .called 71 (.ok ()), _, _, _, _, _]
    simp
  · exact (request_protocol _ _ streamed_reachable _ hmem).1

/-- **The metrics count the requests.** In every run: each request that has begun is active until it
returns, and is then counted once, by its result. A call that is dropped after `begin_request` stays
active for ever. With metrics disabled nothing is counted. -/
theorem requests_accounted (cfg : Config) (s : State T Req Res) (h : (system cfg).Reachable s) :
    (cfg.metricsEnabled = false → s.metrics = ⟨0, 0, 0, 0⟩) ∧
    (cfg.metricsEnabled = true →
      s.metrics.beginRequestFailed = (s.calls.countP fun call => call.stage = .refused) ∧
      s.metrics.activeRequests = (s.calls.countP fun call => call.stage = .active) ∧
      s.metrics.messagesTotal = (s.calls.countP fun call => call.stage = .answered (.ok ())) ∧
      s.metrics.requestErrors = (s.calls.countP fun call => call.stage.failed)) := by
  refine ⟨fun hdisabled => metrics_disabled hdisabled h, fun henabled => ⟨?_, ?_, ?_, ?_⟩⟩
  · refine counted henabled Metrics.beginRequestFailed (fun stage => stage = .refused) rfl rfl
      (fun m effect stage stage' hmoves => ?_) h
    simpa only [decide_eq_true_eq] using (apply_moves m hmoves).1
  · refine counted henabled Metrics.activeRequests (fun stage => stage = .active) rfl rfl
      (fun m effect stage stage' hmoves => ?_) h
    simpa only [decide_eq_true_eq] using (apply_moves m hmoves).2.1
  · refine counted henabled Metrics.messagesTotal (fun stage => stage = .answered (.ok ())) rfl rfl
      (fun m effect stage stage' hmoves => ?_) h
    simpa only [decide_eq_true_eq] using (apply_moves m hmoves).2.2.1
  · exact counted henabled Metrics.requestErrors Stage.failed rfl rfl
      (fun m effect stage stage' hmoves => (apply_moves m hmoves).2.2.2) h

/-- The dropped call is still active. -/
theorem requests_accounted_twoMessages :
    streamed.metrics.activeRequests = 1 ∧ streamed.metrics.requestErrors = 1 := by
  obtain ⟨-, hactive, -, herrors⟩ := (requests_accounted _ _ streamed_reachable).2 rfl
  refine ⟨hactive.trans ?_, herrors.trans ?_⟩
  · decide
  · decide

end SinkRequest

end ServiceLib
