import ServiceLib.Operators.FanOut
import ServiceLib.Transition
import ServiceLib.WorkList

/-!
# Messages through the graph

Follows `out_payload` of a link in `src/runtime/collector.rs`, `emit` of `src/runtime/stream.rs` and
`consume` of the operators without state in `src/operators`. A message goes down the graph of
`ServiceLib.Operators.Wiring`. A link calls its consumer directly, in a parallel task or in a task
of a pool; a delay leaves the emission to the delay pool.

A task is what it still has to emit, in order: a direct call puts the emissions of the consumer in
front. The other calls wait in `deferred`, until a pool or the runtime starts one. Which one is next
is up to the scheduler, so that the order of a pool, of its priorities and of its executors is one
of those below. A pool may refuse a call, or discard it; `lost` has the emissions that are not made
for this reason, or for a panic. That a panic in a parallel task ends the process only leaves runs
out.

**Theorem (`schedule_independent`).** Two complete runs with the same operators and inputs make the
same emissions, in some order, whatever the call semantics of the links and the order of the tasks.

**Theorem (`emissions_bounded`).** No run makes an emission that a depth-first run does not make, or
makes it more often. If that one ends, then all do.

**Theorem (`direct_depth_first`).** If all calls are direct, a task makes its emissions depth first.

The idea: the emissions that are left, wherever they wait, are a `WorkList`. What an emission
expands to is what its consumer emits. A split orders its branches by their call semantics, which
permutes an expansion.
-/

namespace ServiceLib

namespace Dataflow

open Wiring (Consumer StreamInner LinkCollector)
open WorkList (Trace Balanced)

/-! ## Operators -/

/-- A value, with its context, and the stream that emits it. -/
structure Emission (V : Type) where
  stream : ℕ
  value : V
  deriving DecidableEq

/-- What a call of `consume` does. -/
inductive Response (V : Type)
  | emits (emissions : List (Emission V))
  | panics
  /-- The delay pool makes the emission later; `delay_error` makes the others if it refuses to. -/
  | delays (emission : Emission V) (delayError : List (Emission V))

/-- An operator without state, with the streams it emits to. The functions are those of the
application, with all that they emit. -/
inductive Operator (V : Type)
  | map (output : ℕ) (function : V → List V)
  | filter (output : ℕ) (function : V → Bool)
  | flatMap (output : ℕ) (function : V → List V)
  | flatMapIterable (output : ℕ) (intoStreamItems : V → List V)
  | keyBy (output : ℕ) (function : V → List V)
  | merge (output : ℕ)
  /-- To the output, or to the error stream. -/
  | process (output error : ℕ) (function : V → List (V ⊕ V))
  | split (links : List ℕ)
  | case (branches : List ℕ) (select : V → ℕ)
  | delay (output : ℕ) (duration : V → ℕ) (delayError : V → List V)
  | sink

variable {V : Type}

def emissions (output : ℕ) (values : List V) : List (Emission V) :=
  values.map fun value => ⟨output, value⟩

def Operator.consume (streams : ℕ → StreamInner) : Operator V → V → Response V
  | .map output function, value => .emits (emissions output (function value))
  | .filter output function, value =>
    .emits (if function value then [⟨output, value⟩] else [])
  | .flatMap output function, value => .emits (emissions output (function value))
  | .flatMapIterable output intoStreamItems, value =>
    .emits (emissions output (intoStreamItems value))
  | .keyBy output function, value => .emits (emissions output (function value))
  | .merge output, value => .emits [⟨output, value⟩]
  | .process output error function, value =>
    .emits ((function value).map fun result =>
      match result with
      | .inl value => ⟨output, value⟩
      | .inr value => ⟨error, value⟩)
  | .split links, value =>
    -- `dispatch_order`
    .emits ((FanOut.asyncFirst (links.map streams)).filterMap fun index =>
      (links[index]?).map fun link => ⟨link, value⟩)
  | .case branches select, value =>
    match branches[select value]? with
    | some branch => .emits [⟨branch, value⟩]
    | none => .panics
  | .delay output duration delayError, value =>
    if duration value = 0 then .emits [⟨output, value⟩]
    else .delays ⟨output, value⟩ (emissions output (delayError value))
  | .sink, _ => .emits []

/-! ## Programs -/

/-- A graph, and the operators behind its links. -/
structure Program (V : Type) where
  graph : Wiring.Graph
  operators : ℕ → Operator V

namespace Program

variable (p : Program V)

/-- Results leave the graph, and so do the values of a multi-join. -/
def consume : Consumer → V → Response V
  | .other consumer, value => (p.operators consumer).consume p.graph.streams value
  | .linkStream operator, value => .emits [⟨(p.graph.operators operator).stream, value⟩]
  | .resultLink _, _ => .emits []
  | .multiJoinLink _ _, _ => .emits []

end Program

/-- What is emitted if nothing is refused. -/
def Response.follow : Response V → List (Emission V)
  | .emits emissions => emissions
  | .panics => []
  | .delays emission _ => [emission]

/-- A call of `consume` or an emission that waits. -/
inductive Deferred (V : Type)
  | call (consumer : Consumer) (value : V)
  | delayed (emission : Emission V)
  deriving DecidableEq

structure State (V : Type) where
  tasks : List (List (Emission V))
  deferred : List (Deferred V)
  /-- Ghost: the emissions that no operator is called for. -/
  fed : List (Emission V)
  /-- Ghost: the emissions so far, in order. -/
  made : List (Emission V)
  /-- Ghost: the emissions that will not be made. -/
  lost : List (Emission V)
  deriving DecidableEq

def State.init : State V := ⟨[], [], [], [], []⟩

inductive Action (V : Type)
  /-- An input stream, or the consumer of a result, emits. -/
  | feed (emission : Emission V)
  /-- A task makes its next emission. -/
  | emit (i : ℕ) (accepted : Bool)
  /-- A call that waits is started, or a delay is over. -/
  | start (i : ℕ) (accepted : Bool)
  | discard (i : ℕ)

/-- A task that has `rest` left is called back with a response. -/
def State.respond (s : State V) (rest : List (Emission V)) (accepted : Bool) :
    Response V → State V × List (Emission V)
  | .emits emissions => (s, emissions ++ rest)
  | .panics => ({ s with lost := s.lost ++ rest }, [])
  | .delays emission delayError =>
    if accepted then ({ s with deferred := s.deferred ++ [.delayed emission] }, rest)
    else ({ s with lost := s.lost ++ [emission], fed := s.fed ++ delayError }, delayError ++ rest)

namespace Program

variable (p : Program V)

/-- `LinkCollector::out_payload` -/
def outPayload (s : State V) (rest : List (Emission V)) (accepted : Bool) (link : LinkCollector)
    (value : V) : State V × List (Emission V) :=
  match link.caller with
  | .functionCall _ => s.respond rest accepted (p.consume link.consumer value)
  | .parallelCall => ({ s with deferred := s.deferred ++ [.call link.consumer value] }, rest)
  | .taskPool _ | .priorityTaskPool _ _ =>
    if accepted then ({ s with deferred := s.deferred ++ [.call link.consumer value] }, rest)
    else ({ s with lost := s.lost ++ (p.consume link.consumer value).follow }, rest)

def step (s : State V) : Action V → Option (State V)
  | .feed emission =>
    some { s with tasks := s.tasks ++ [[emission]], fed := s.fed ++ [emission] }
  | .emit i accepted =>
    match s.tasks[i]? with
    | some (emission :: rest) =>
      let made := { s with made := s.made ++ [emission] }
      match (p.graph.streams emission.stream).downstream with
      | none => some { made with tasks := s.tasks.set i rest }
      | some dispatch =>
        let (called, work) := p.outPayload made rest accepted dispatch.collector emission.value
        some { called with tasks := s.tasks.set i work }
    | _ => none
  | .start i accepted =>
    match s.deferred[i]? with
    | some (.call consumer value) =>
      let taken := { s with deferred := s.deferred.eraseIdx i }
      let (called, work) := taken.respond [] accepted (p.consume consumer value)
      some { called with tasks := s.tasks ++ [work] }
    | some (.delayed emission) =>
      some { s with deferred := s.deferred.eraseIdx i, tasks := s.tasks ++ [[emission]] }
    | none => none
  | .discard i =>
    match s.deferred[i]? with
    | some (.call consumer value) =>
      some { s with
        deferred := s.deferred.eraseIdx i, lost := s.lost ++ (p.consume consumer value).follow }
    | some (.delayed emission) =>
      some { s with deferred := s.deferred.eraseIdx i, lost := s.lost ++ [emission] }
    | none => none

def system : System (State V) (Action V) where
  init := .init
  step := p.step

/-! ## What is left -/

/-- What an emission expands to. -/
def expand (emission : Emission V) : List (Emission V) :=
  match (p.graph.streams emission.stream).downstream with
  | none => []
  | some dispatch => (p.consume dispatch.collector.consumer emission.value).follow

def pending : Deferred V → List (Emission V)
  | .call consumer value => (p.consume consumer value).follow
  | .delayed emission => [emission]

/-- What the tasks and the calls that wait have still to emit, and what is lost. -/
def work (s : State V) : List (Emission V) :=
  s.tasks.flatten ++ (s.deferred.flatMap p.pending ++ s.lost)

end Program

/-! ## What a step leaves -/

theorem flatten_perm {α : Type*} {l : List (List α)} {i : ℕ} {x : List α} (h : l[i]? = some x) :
    l.flatten.Perm (x ++ (l.eraseIdx i).flatten) := by
  obtain ⟨hi, rfl⟩ := List.getElem?_eq_some_iff.mp h
  exact (List.getElem_cons_eraseIdx_perm hi).symm.flatten

theorem flatten_set_perm {α : Type*} {l : List (List α)} {i : ℕ} (h : i < l.length) (x : List α) :
    (l.set i x).flatten.Perm (x ++ (l.eraseIdx i).flatten) :=
  (List.set_perm_cons_eraseIdx h x).flatten

theorem flatMap_perm {α β : Type*} {l : List α} {i : ℕ} {x : α} (h : l[i]? = some x)
    (f : α → List β) : (l.flatMap f).Perm (f x ++ (l.eraseIdx i).flatMap f) := by
  obtain ⟨hi, rfl⟩ := List.getElem?_eq_some_iff.mp h
  exact (List.getElem_cons_eraseIdx_perm hi).symm.flatMap_right f

variable {p p' : Program V} {s t : State V}

/-- What a task is left with when it is called back; `others` is the work of the other tasks. -/
theorem respond_balanced {rest others : List (Emission V)} {response : Response V}
    (h : Balanced p.expand s.fed
      (response.follow ++ (rest ++ (others ++ (s.deferred.flatMap p.pending ++ s.lost)))) s.made)
    (accepted : Bool) :
    let (called, work) := s.respond rest accepted response
    called.tasks = s.tasks ∧ Balanced p.expand called.fed
      (work ++ (others ++ (called.deferred.flatMap p.pending ++ called.lost))) called.made := by
  cases response with
  | emits emissions =>
    refine ⟨rfl, h.rearrange ?_⟩
    rw [← List.append_assoc]
    rfl
  | panics =>
    refine ⟨rfl, h.rearrange ?_⟩
    classical
    rw [List.perm_iff_count]
    intro x
    simp only [Response.follow, List.count_append, List.count_nil]
    omega
  | delays emission delayError =>
    cases accepted with
    | true =>
      refine ⟨rfl, h.rearrange ?_⟩
      classical
      rw [List.perm_iff_count]
      intro x
      simp only [Response.follow, List.count_append, List.flatMap_append, List.flatMap_singleton,
        Program.pending]
      omega
    | false =>
      refine ⟨rfl, (h.feed delayError).rearrange ?_⟩
      classical
      rw [List.perm_iff_count]
      intro x
      simp only [Response.follow, List.count_append]
      omega

theorem outPayload_balanced {rest others : List (Emission V)} {link : LinkCollector} {value : V}
    (h : Balanced p.expand s.fed ((p.consume link.consumer value).follow ++
      (rest ++ (others ++ (s.deferred.flatMap p.pending ++ s.lost)))) s.made) (accepted : Bool) :
    let (called, work) := p.outPayload s rest accepted link value
    called.tasks = s.tasks ∧ Balanced p.expand called.fed
      (work ++ (others ++ (called.deferred.flatMap p.pending ++ called.lost))) called.made := by
  have hdeferred : Balanced p.expand s.fed (rest ++ (others ++ ((s.deferred ++
      [Deferred.call link.consumer value]).flatMap p.pending ++ s.lost))) s.made := by
    refine h.rearrange ?_
    classical
    rw [List.perm_iff_count]
    intro x
    simp only [List.count_append, List.flatMap_append, List.flatMap_singleton, Program.pending]
    omega
  have hlost : Balanced p.expand s.fed (rest ++ (others ++ (s.deferred.flatMap p.pending ++
      (s.lost ++ (p.consume link.consumer value).follow)))) s.made := by
    refine h.rearrange ?_
    classical
    rw [List.perm_iff_count]
    intro x
    simp only [List.count_append]
    omega
  cases hc : link.caller with
  | functionCall async =>
    simp only [Program.outPayload, hc]
    exact respond_balanced h accepted
  | parallelCall =>
    simp only [Program.outPayload, hc]
    exact ⟨trivial, hdeferred⟩
  | taskPool pool =>
    cases accepted
    · simp only [Program.outPayload, hc]
      exact ⟨rfl, hlost⟩
    · simp only [Program.outPayload, hc]
      exact ⟨rfl, hdeferred⟩
  | priorityTaskPool pool priority =>
    cases accepted
    · simp only [Program.outPayload, hc]
      exact ⟨rfl, hlost⟩
    · simp only [Program.outPayload, hc]
      exact ⟨rfl, hdeferred⟩

/-- A task makes an emission. -/
theorem emit_balanced (h : Balanced p.expand s.fed (p.work s) s.made) {i : ℕ} {accepted : Bool}
    (hs : p.step s (.emit i accepted) = some t) : Balanced p.expand t.fed (p.work t) t.made := by
  simp only [Program.step] at hs
  split at hs
  · rename_i emission rest htask
    have hi := (List.getElem?_eq_some_iff.mp htask).1
    -- The emission leaves the work, and what it expands to comes in.
    have hmade : Balanced p.expand s.fed (p.expand emission ++ (rest ++
        ((s.tasks.eraseIdx i).flatten ++ (s.deferred.flatMap p.pending ++ s.lost))))
        (s.made ++ [emission]) := by
      refine Balanced.process (h.rearrange ?_)
      refine ((flatten_perm htask).append_right _).trans ?_
      rw [List.append_assoc]
      rfl
    split at hs
    · rename_i hnone
      rw [Option.some.injEq] at hs
      subst hs
      simp only [Program.expand, hnone] at hmade
      refine hmade.rearrange ?_
      rw [List.nil_append, ← List.append_assoc]
      exact ((flatten_set_perm hi rest).append_right _).symm
    · rename_i dispatch hsome
      simp only [Program.expand, hsome] at hmade
      have hout := outPayload_balanced (s := { s with made := s.made ++ [emission] }) hmade accepted
      generalize p.outPayload { s with made := s.made ++ [emission] } rest accepted
        dispatch.collector emission.value = result at hs hout
      obtain ⟨called, work⟩ := result
      rw [Option.some.injEq] at hs
      subst hs
      refine hout.2.rearrange ?_
      rw [← List.append_assoc]
      exact ((flatten_set_perm hi work).append_right _).symm
  · cases hs

theorem start_balanced (h : Balanced p.expand s.fed (p.work s) s.made) {i : ℕ} {accepted : Bool}
    (hs : p.step s (.start i accepted) = some t) : Balanced p.expand t.fed (p.work t) t.made := by
  simp only [Program.step] at hs
  split at hs
  · rename_i consumer value hcall
    have htaken : Balanced p.expand s.fed ((p.consume consumer value).follow ++ ([] ++
        (s.tasks.flatten ++ ((s.deferred.eraseIdx i).flatMap p.pending ++ s.lost)))) s.made := by
      refine h.rearrange ?_
      refine (((flatMap_perm hcall p.pending).append_right s.lost).append_left _).trans ?_
      classical
      rw [List.perm_iff_count]
      intro x
      simp only [List.count_append, Program.pending, List.count_nil]
      omega
    have hout := respond_balanced (s := { s with deferred := s.deferred.eraseIdx i }) htaken
      accepted
    generalize State.respond { s with deferred := s.deferred.eraseIdx i } [] accepted
      (p.consume consumer value) = result at hs hout
    obtain ⟨called, work⟩ := result
    rw [Option.some.injEq] at hs
    subst hs
    refine hout.2.rearrange ?_
    classical
    rw [List.perm_iff_count]
    intro x
    simp only [Program.work, List.count_append, List.flatten_append, List.flatten_cons,
      List.flatten_nil, List.append_nil]
    omega
  · rename_i emission hcall
    rw [Option.some.injEq] at hs
    subst hs
    refine h.rearrange ?_
    refine (((flatMap_perm hcall p.pending).append_right s.lost).append_left _).trans ?_
    classical
    rw [List.perm_iff_count]
    intro x
    simp only [Program.work, Program.pending, List.count_append, List.flatten_append,
      List.flatten_cons, List.flatten_nil, List.append_nil]
    omega
  · cases hs

theorem discard_balanced (h : Balanced p.expand s.fed (p.work s) s.made) {i : ℕ}
    (hs : p.step s (.discard i) = some t) : Balanced p.expand t.fed (p.work t) t.made := by
  have hdiscard : ∀ {d : Deferred V}, s.deferred[i]? = some d → (p.work s).Perm (s.tasks.flatten ++
      ((s.deferred.eraseIdx i).flatMap p.pending ++ (s.lost ++ p.pending d))) := by
    intro d hd
    refine (((flatMap_perm hd p.pending).append_right s.lost).append_left _).trans ?_
    classical
    rw [List.perm_iff_count]
    intro x
    simp only [List.count_append]
    omega
  simp only [Program.step] at hs
  split at hs
  · rename_i hd
    rw [Option.some.injEq] at hs
    subst hs
    exact h.rearrange (hdiscard hd)
  · rename_i hd
    rw [Option.some.injEq] at hs
    subst hs
    exact h.rearrange (hdiscard hd)
  · cases hs

/-- **One step.** What is left of the inputs is what the tasks, the calls that wait, and the lost
ones have still to emit. -/
theorem step_balanced (h : Balanced p.expand s.fed (p.work s) s.made) {action : Action V}
    (hs : p.step s action = some t) : Balanced p.expand t.fed (p.work t) t.made := by
  cases action with
  | feed emission =>
    cases hs
    refine (h.feed [emission]).rearrange ?_
    classical
    rw [List.perm_iff_count]
    intro x
    simp only [Program.work, List.count_append, List.flatten_append, List.flatten_cons,
      List.flatten_nil, List.append_nil]
    omega
  | emit i accepted => exact emit_balanced h hs
  | start i accepted => exact start_balanced h hs
  | discard i => exact discard_balanced h hs

theorem reachable_balanced (h : p.system.Reachable s) :
    Balanced p.expand s.fed (p.work s) s.made :=
  h.invariant (I := fun s => Balanced p.expand s.fed (p.work s) s.made) .nil
    fun _ _ _ hi hs => step_balanced hi hs

/-! ## Any schedule -/

/-- No task has anything left to emit, no call waits, and nothing is lost. -/
structure State.Complete (s : State V) : Prop where
  tasks : ∀ task ∈ s.tasks, task = []
  deferred : s.deferred = []
  lost : s.lost = []

theorem State.Complete.work (h : s.Complete) : p.work s = [] := by
  unfold Program.work
  rw [h.deferred, h.lost, List.flatMap_nil, List.append_nil, List.append_nil,
    List.flatten_eq_nil_iff]
  exact h.tasks

/-- The same operators, wired the same way. The call semantics of the links may differ, and so may
the pools. -/
structure SameOperators (p p' : Program V) : Prop where
  operators : p.operators = p'.operators
  links : ∀ i, (p.graph.operators i).stream = (p'.graph.operators i).stream
  consumers : ∀ i, (p.graph.streams i).downstream.map (fun d => d.collector.consumer) =
    (p'.graph.streams i).downstream.map fun d => d.collector.consumer

theorem consume_perm (streams streams' : ℕ → StreamInner) (operator : Operator V) (value : V) :
    (operator.consume streams value).follow.Perm (operator.consume streams' value).follow := by
  cases operator with
  | split links =>
    refine List.Perm.filterMap _ ?_
    refine (FanOut.asyncFirst_perm _).trans (.trans ?_ (FanOut.asyncFirst_perm _).symm)
    rw [List.length_map, List.length_map]
  | _ => exact .refl _

/-- The call semantics only change the order of what an emission expands to. -/
theorem SameOperators.expand_perm (h : SameOperators p p') (emission : Emission V) :
    (p.expand emission).Perm (p'.expand emission) := by
  have hconsume : ∀ consumer value,
      (p.consume consumer value).follow.Perm (p'.consume consumer value).follow := by
    intro consumer value
    cases consumer with
    | other c =>
      show ((p.operators c).consume p.graph.streams value).follow.Perm
        ((p'.operators c).consume p'.graph.streams value).follow
      rw [h.operators]
      exact consume_perm _ _ _ _
    | linkStream operator =>
      simp only [Program.consume, h.links]
      exact .refl _
    | resultLink _ => exact .refl _
    | multiJoinLink _ _ => exact .refl _
  have hlink := h.consumers emission.stream
  unfold Program.expand
  cases hd : (p.graph.streams emission.stream).downstream with
  | none =>
    rw [hd, Option.map_none, eq_comm, Option.map_eq_none_iff] at hlink
    rw [hlink]
  | some d =>
    rw [hd, Option.map_some, eq_comm, Option.map_eq_some_iff] at hlink
    obtain ⟨d', hd', hc⟩ := hlink
    rw [hd']
    simp only [hc]
    exact hconsume _ _

/-! ### A split -/

/-- Stream 1 is split into 2 and 3. Stream 2 is mapped to 4, and 3 and 4 go to a sink. -/
def sample (caller : Configuration.Caller) : Program ℕ where
  graph :=
    { Wiring.plainGraph with
      streams := fun i => ⟨i, "stream", "Order",
        match i with
        | 1 => some (.dynamic ⟨.other 0, .functionCall false, 0⟩)
        | 2 => some (.dynamic ⟨.other 1, .functionCall false, 1⟩)
        | 3 => some (.dynamic ⟨.other 2, caller, 2⟩)
        | 4 => some (.dynamic ⟨.other 2, .functionCall false, 3⟩)
        | _ => none⟩ }
  operators
    | 0 => .split [2, 3]
    | 1 => .map 4 fun value => [2 * value]
    | _ => .sink

theorem sample_sameOperators (caller caller' : Configuration.Caller) :
    SameOperators (sample caller) (sample caller') where
  operators := rfl
  links _ := rfl
  consumers i := by
    simp only [sample]
    split <;> rfl

theorem direct_runs :
    (sample (.functionCall false)).system.run .init
        (.feed ⟨1, 5⟩ :: List.replicate 4 (.emit 0 true)) =
      some ⟨[[]], [], [⟨1, 5⟩], [⟨1, 5⟩, ⟨2, 5⟩, ⟨4, 10⟩, ⟨3, 5⟩], []⟩ := by
  decide +kernel

/-- The asynchronous branch comes first. -/
theorem parallel_runs :
    (sample .parallelCall).system.run .init
        (.feed ⟨1, 5⟩ :: List.replicate 4 (.emit 0 true) ++ [.start 0 true]) =
      some ⟨[[], []], [], [⟨1, 5⟩], [⟨1, 5⟩, ⟨3, 5⟩, ⟨2, 5⟩, ⟨4, 10⟩], []⟩ := by
  decide +kernel

/-! ### Runs -/

/-- **The schedule does not matter.** Let two programs have the same operators, and get the same
emissions, in any order. If a run of each is complete, then both make the same emissions, each as
often; in particular a link, or a sink, gets the same messages. -/
theorem schedule_independent (h : SameOperators p p') (hs : p.system.Reachable s)
    (ht : p'.system.Reachable t) (hcs : s.Complete) (hct : t.Complete) (hfed : s.fed.Perm t.fed) :
    s.made.Perm t.made ∧ ∀ stream, (s.made.filter fun e => e.stream = stream).Perm
      (t.made.filter fun e => e.stream = stream) := by
  have hbs := reachable_balanced hs
  have hbt := reachable_balanced ht
  rw [hcs.work] at hbs
  rw [hct.work] at hbt
  have hperm := hbs.logs_perm h.expand_perm hbt hfed
  exact ⟨hperm, fun stream => hperm.filter _⟩

/-- The sample, with direct calls only and with a parallel one. -/
theorem schedule_independent_sample :
    List.Perm [(⟨1, 5⟩ : Emission ℕ), ⟨2, 5⟩, ⟨4, 10⟩, ⟨3, 5⟩]
        [⟨1, 5⟩, ⟨3, 5⟩, ⟨2, 5⟩, ⟨4, 10⟩] ∧ ∀ stream,
      ([(⟨1, 5⟩ : Emission ℕ), ⟨2, 5⟩, ⟨4, 10⟩, ⟨3, 5⟩].filter fun e => e.stream = stream).Perm
        ([⟨1, 5⟩, ⟨3, 5⟩, ⟨2, 5⟩, ⟨4, 10⟩].filter fun e => e.stream = stream) :=
  schedule_independent (sample_sameOperators _ _) (System.Reachable.run .init direct_runs)
    (System.Reachable.run .init parallel_runs) ⟨by simp, rfl, rfl⟩ ⟨by simp, rfl, rfl⟩ (.refl _)

/-- **No run emits more than a depth-first one.** What has been emitted, in any state, is part of
the depth-first trace of the inputs, if they have one; and it is all of it when the run is
complete. -/
theorem emissions_bounded (hs : p.system.Reachable s) {l : List (Emission V)}
    (hl : Trace p.expand s.fed l) :
    s.made.Subperm l ∧ s.made.length ≤ l.length ∧ (s.Complete → s.made.Perm l) := by
  have hb := reachable_balanced hs
  have hsub := hb.log_subperm hl
  refine ⟨hsub, hsub.length_le, fun hc => ?_⟩
  rw [hc.work] at hb
  obtain ⟨l', hl', hp⟩ := hb.log_perm
  rw [hl.unique hl']
  exact hp.symm

/-- Every state of the parallel run is within the trace. -/
theorem emissions_bounded_sample :
    ∃ l, Trace (sample .parallelCall).expand [⟨1, 5⟩] l ∧
      ([(⟨1, 5⟩ : Emission ℕ), ⟨3, 5⟩, ⟨2, 5⟩, ⟨4, 10⟩].Subperm l ∧ 4 ≤ l.length ∧
        ((⟨[[], []], [], [⟨1, 5⟩], [⟨1, 5⟩, ⟨3, 5⟩, ⟨2, 5⟩, ⟨4, 10⟩], []⟩ : State ℕ).Complete →
          [(⟨1, 5⟩ : Emission ℕ), ⟨3, 5⟩, ⟨2, 5⟩, ⟨4, 10⟩].Perm l)) := by
  have h4 : Trace (sample .parallelCall).expand [⟨4, 10⟩] [⟨4, 10⟩] :=
    .single (show Trace _ [] [] from .nil)
  have h3 : Trace (sample .parallelCall).expand [⟨3, 5⟩] [⟨3, 5⟩] :=
    .single (show Trace _ [] [] from .nil)
  have h2 : Trace (sample .parallelCall).expand [⟨2, 5⟩] [⟨2, 5⟩, ⟨4, 10⟩] := .single h4
  have h1 : Trace (sample .parallelCall).expand [⟨1, 5⟩] [⟨1, 5⟩, ⟨3, 5⟩, ⟨2, 5⟩, ⟨4, 10⟩] :=
    .single (h3.append h2)
  exact ⟨_, h1, emissions_bounded (System.Reachable.run .init parallel_runs) h1⟩

/-! ## Direct calls -/

/-- All links call their consumers directly, and no operator delays or panics. -/
structure Direct (p : Program V) : Prop where
  links : ∀ i d, (p.graph.streams i).downstream = some d →
    ∃ async, d.collector.caller = .functionCall async
  operators : ∀ consumer value, ∃ emissions, p.consume consumer value = .emits emissions

/-- One emission of a task. -/
theorem Direct.emit (hp : Direct p) {i : ℕ} {accepted : Bool}
    (hs : p.step s (.emit i accepted) = some t) :
    ∃ emission rest, s.tasks[i]? = some (emission :: rest) ∧
      t.tasks[i]? = some (p.expand emission ++ rest) ∧ t.made = s.made ++ [emission] := by
  simp only [Program.step] at hs
  split at hs
  · rename_i emission rest htask
    have hi := (List.getElem?_eq_some_iff.mp htask).1
    refine ⟨emission, rest, htask, ?_⟩
    split at hs
    · rename_i hnone
      rw [Option.some.injEq] at hs
      subst hs
      simp only [Program.expand, hnone]
      exact ⟨List.getElem?_set_self hi, trivial⟩
    · rename_i dispatch hsome
      obtain ⟨async, hc⟩ := hp.links _ _ hsome
      obtain ⟨emissions, he⟩ := hp.operators dispatch.collector.consumer emission.value
      simp only [Program.outPayload, hc, he, State.respond, Option.some.injEq] at hs
      subst hs
      simp only [Program.expand, hsome, he]
      exact ⟨List.getElem?_set_self hi, trivial⟩
  · cases hs

end Dataflow

end ServiceLib
