import ServiceLib.Runtime.Config

/-!
# Wiring the graph

Follows `try_set_consumer` and `try_set_typed_consumer` of `src/runtime/stream.rs`, the functions
`set_source_typed` of the input, link and sub-streams, `add_with_collector` of the multi-join, and
`LinkCollector::new` with `register_graph_link`, which all of them go through. The graph is built by
one thread, so a call is one step.

**Theorem (`wiring_atomic`).** A call that returns `Err` leaves the wiring as it was if and only if
it is `Atomic`. In every sequence of atomic calls, the graph is the one that the calls that did not
return `Err` build on their own.

Which calls are not atomic differs from one to the other: `try_set_consumer` registers its link
before it finds that there is a consumer, `set_source_typed` of an input stream connects the source
before it finds that the input has one, and `add_with_collector` takes its index before the source
can refuse (`refused_calls_leave_effects`). `try_set_typed_consumer` and the other two
`set_source_typed` look first.
-/

namespace ServiceLib

namespace Wiring

open ServiceLib.Configuration (CallSemantics Caller RuntimeEnvironment linkCaller)

/-! ## The graph -/

inductive Consumer
  /-- A consumer of the application, or of another operator. -/
  | other (consumer : ℕ)
  /-- `ResultLink` of an input stream or of a sub-stream. -/
  | resultLink (operator : ℕ)
  | linkStream (operator : ℕ)
  | multiJoinLink (multiJoin index : ℕ)
  deriving DecidableEq

/-- `LinkCollector`; `calls` names the counter of its `CallStatistics`. -/
structure LinkCollector where
  consumer : Consumer
  caller : Caller
  calls : ℕ

/-- `StreamDispatch`. -/
inductive Dispatch
  | dynamic (collector : LinkCollector)
  | typed (collector : LinkCollector)

def Dispatch.collector : Dispatch → LinkCollector
  | dynamic collector | typed collector => collector

structure StreamInner where
  id : ℤ
  name : String
  typeName : String
  downstream : Option Dispatch

inductive OperatorKind
  | input
  | link
  | subStream (serviceId : ℤ)

/-- An operator that records its source; `stream` is its own stream. -/
structure Operator where
  kind : OperatorKind
  stream : ℕ
  source : Option ℕ

structure MultiJoin where
  output : ℕ
  nextIndex : ℕ

structure GraphLink where
  fromId : ℤ
  toId : ℤ
  callSemantics : CallSemantics
  typeName : String
  calls : ℕ

/-- What the environment answers: the configuration and the pools, the configured service of a
stream, and what creating the counter of a link gives. -/
structure Setting where
  environment : RuntimeEnvironment
  idService : ℤ → Option ℤ
  messagesTotal : ℤ → ℤ → RuntimeResult Unit

/-- Streams, operators and multi-joins are known by the allocation that their handles share.
Counters are allocated in order. -/
structure Graph where
  setting : Setting
  streams : ℕ → StreamInner
  operators : ℕ → Operator
  multiJoins : ℕ → MultiJoin
  graphLinks : List GraphLink
  counters : ℕ → ℤ
  nextCounter : ℕ
  allocated : ∀ link ∈ graphLinks, link.calls < nextCounter

/-! ## `LinkCollector::new` -/

def functionCallAsync (environment : RuntimeEnvironment) (fromId toId : ℤ) : Bool :=
  match environment.runtimeConfig.links.lookup (fromId, toId) with
  | some link => decide (link.callSemantics = .functionCall) && link.async
  | none => false

/-- The link of the same two streams is replaced in place. -/
def registerGraphLink (links : List GraphLink) (link : GraphLink) : List GraphLink :=
  match links.findIdx? fun other => other.fromId = link.fromId ∧ other.toId = link.toId with
  | some i => links.set i link
  | none => links ++ [link]

theorem mem_registerGraphLink {links : List GraphLink} {link other : GraphLink}
    (h : other ∈ registerGraphLink links link) : other = link ∨ other ∈ links := by
  unfold registerGraphLink at h
  split at h
  · exact (List.mem_or_eq_of_mem_set h).symm
  · rcases List.mem_append.mp h with h | h
    · exact .inr h
    · exact .inl (List.mem_singleton.mp h)

theorem mem_registerGraphLink_self (links : List GraphLink) (link : GraphLink) :
    link ∈ registerGraphLink links link := by
  unfold registerGraphLink
  split
  · rename_i i hi
    obtain ⟨hlt, -⟩ := List.findIdx?_eq_some_iff_getElem.mp hi
    exact List.mem_set hlt link
  · exact List.mem_append_right _ List.mem_cons_self

namespace Graph

variable (g : Graph)

/-- The part of `LinkCollector::new` that can fail. -/
def selectCaller (fromId toId : ℤ) : RuntimeResult Caller := do
  let caller ← linkCaller g.setting.environment
    (functionCallAsync g.setting.environment fromId toId)
    (g.setting.environment.callSemantics fromId toId)
  g.setting.messagesTotal fromId toId
  return caller

/-- A new counter, and the link that reports it. -/
def addLink (fromId toId : ℤ) (typeName : String) : Graph where
  setting := g.setting
  streams := g.streams
  operators := g.operators
  multiJoins := g.multiJoins
  graphLinks := registerGraphLink g.graphLinks
    ⟨fromId, toId, g.setting.environment.callSemantics fromId toId, typeName, g.nextCounter⟩
  counters := Function.update g.counters g.nextCounter 0
  nextCounter := g.nextCounter + 1
  allocated link hlink := by
    rcases mem_registerGraphLink hlink with rfl | hlink
    · exact Nat.lt_succ_self _
    · exact Nat.lt_succ_of_lt (g.allocated link hlink)

def newLinkCollector (consumer : Consumer) (fromId toId : ℤ) (typeName : String) :
    RuntimeResult (LinkCollector × Graph) := do
  let caller ← g.selectCaller fromId toId
  return (⟨consumer, caller, g.nextCounter⟩, g.addLink fromId toId typeName)

/-! ## The wiring calls -/

def setDownstream (stream : ℕ) (dispatch : Dispatch) : Graph :=
  let x := { g.streams stream with downstream := some dispatch }
  { g with streams := Function.update g.streams stream x }

def setSource (operator source : ℕ) : Graph :=
  let x := { g.operators operator with source := some source }
  { g with operators := Function.update g.operators operator x }

end Graph

/-- How a call ends. -/
inductive Outcome
  | ok
  | err (error : RuntimeError)
  | panicked

namespace Graph

variable (g : Graph)

def trySetConsumer (stream : ℕ) (consumer : Consumer) (targetId : ℤ) : Graph × Outcome :=
  let x := g.streams stream
  match g.newLinkCollector consumer x.id targetId x.typeName with
  | .error error => (g, .err error)
  | .ok (collector, g) =>
    match (g.streams stream).downstream with
    | some _ => (g, .err (.consumerAlreadySet x.name))
    | none => (g.setDownstream stream (.dynamic collector), .ok)

def trySetTypedConsumer (stream : ℕ) (consumer : Consumer) (targetId : ℤ) : Graph × Outcome :=
  let x := g.streams stream
  match x.downstream with
  | some _ => (g, .err (.consumerAlreadySet x.name))
  | none =>
    match g.newLinkCollector consumer x.id targetId x.typeName with
    | .error error => (g, .err error)
    | .ok (collector, g) =>
      match (g.streams stream).downstream with
      | some _ => (g, .err (.consumerAlreadySet x.name))
      | none => (g.setDownstream stream (.typed collector), .ok)

/-- `self.source.set(source.clone()).map_err(..)?`, after the source has been connected. -/
def recordSource (operator source : ℕ) (name : String) : Graph × Outcome → Graph × Outcome
  | (g, .ok) =>
    match (g.operators operator).source with
    | some _ => (g, .err (.sourceAlreadySet name))
    | none => (g.setSource operator source, .ok)
  | (g, outcome) => (g, outcome)

/-- `source.config().stream().id_service`; no such configuration is a panic. -/
def serviceOf (id : ℤ) : Option ℤ :=
  if id = -2 ^ 31 then none else g.setting.idService |id|

/-- `set_source_typed` of the three operators. -/
def setSourceTyped (operator source : ℕ) : Graph × Outcome :=
  let x := g.operators operator
  let stream := g.streams x.stream
  match x.kind with
  | .input =>
    recordSource operator source stream.name
      (g.trySetTypedConsumer source (.resultLink operator) stream.id)
  | .link =>
    if x.source.isSome then (g, .err (.sourceAlreadySet stream.name))
    else
      recordSource operator source stream.name
        (g.trySetTypedConsumer source (.linkStream operator) stream.id)
  | .subStream serviceId =>
    let invalid : RuntimeError := .invalidConfiguration
      "SubStream result source must be a different stream in the same service"
    let connect := recordSource operator source stream.name
      (g.trySetTypedConsumer source (.resultLink operator) stream.id)
    if x.source.isSome then (g, .err (.sourceAlreadySet stream.name))
    else if (g.streams source).id = stream.id then (g, .err invalid)
    else
      match g.serviceOf (g.streams source).id with
      | none => (g, .panicked)
      | some id => if id ≠ serviceId then (g, .err invalid) else connect

def takeIndex (multiJoin : ℕ) : Graph :=
  let x := g.multiJoins multiJoin
  let x := { x with nextIndex := (x.nextIndex + 1) % 2 ^ 64 }
  { g with multiJoins := Function.update g.multiJoins multiJoin x }

def addWithCollector (multiJoin source : ℕ) : Graph × Outcome :=
  let x := g.multiJoins multiJoin
  (g.takeIndex multiJoin).trySetTypedConsumer source (.multiJoinLink multiJoin x.nextIndex)
    (g.streams x.output).id

/-- A message passes the stream, and the collector counts it. -/
def emit (stream : ℕ) : Graph :=
  match (g.streams stream).downstream with
  | none => g
  | some dispatch =>
    let calls := dispatch.collector.calls
    { g with counters := Function.update g.counters calls ((g.counters calls + 1).bmod (2 ^ 64)) }

end Graph

inductive Call
  | trySetConsumer (stream : ℕ) (consumer : Consumer) (targetId : ℤ)
  | trySetTypedConsumer (stream : ℕ) (consumer : Consumer) (targetId : ℤ)
  /-- `set_source` and `set_source_typed`. -/
  | setSource (operator source : ℕ)
  /-- `add` and `add_with_collector`. -/
  | add (multiJoin source : ℕ)
  | emit (stream : ℕ)
  /-- The configuration is published, or a pool registered. -/
  | change (setting : Setting)

namespace Graph

def apply (g : Graph) : Call → Graph × Outcome
  | .trySetConsumer stream consumer targetId => g.trySetConsumer stream consumer targetId
  | .trySetTypedConsumer stream consumer targetId => g.trySetTypedConsumer stream consumer targetId
  | .setSource operator source => g.setSourceTyped operator source
  | .add multiJoin source => g.addWithCollector multiJoin source
  | .emit stream => (g.emit stream, .ok)
  | .change setting => ({ g with setting := setting }, .ok)

/-- A sequence of calls. -/
def applyAll (g : Graph) : List Call → Graph
  | [] => g
  | call :: calls => (g.apply call).1.applyAll calls

end Graph

/-! ## The property and the condition -/

/-- Every downstream, every recorded source, every next index, and the links of the graph with their
counters are the same. -/
structure SameWiring (g g' : Graph) : Prop where
  streams : g'.streams = g.streams
  operators : g'.operators = g.operators
  multiJoins : g'.multiJoins = g.multiJoins
  graphLinks : g'.graphLinks = g.graphLinks
  counters : ∀ link ∈ g.graphLinks, g'.counters link.calls = g.counters link.calls

/-- `LinkCollector::new` succeeds: the pool is there, and the counter can be created. -/
def Builds (g : Graph) (fromId toId : ℤ) : Prop := ∃ caller, g.selectCaller fromId toId = .ok caller

/-- What keeps a call from failing after its first effect. -/
def Atomic (g : Graph) : Call → Prop
  | .trySetConsumer stream _ targetId =>
    (g.streams stream).downstream = none ∨ ¬ Builds g (g.streams stream).id targetId
  | .setSource operator source =>
    (g.operators operator).kind = .input →
      (g.operators operator).source = none ∨ (g.streams source).downstream ≠ none ∨
        ¬ Builds g (g.streams source).id (g.streams (g.operators operator).stream).id
  | .add multiJoin source =>
    (g.streams source).downstream = none ∧
      Builds g (g.streams source).id (g.streams (g.multiJoins multiJoin).output).id
  | .trySetTypedConsumer _ _ _ | .emit _ | .change _ => True

def Outcome.IsErr : Outcome → Prop
  | .err _ => True
  | _ => False

/-- Every call of the sequence is atomic where it is made. -/
def AllAtomic (g : Graph) : List Call → Prop
  | [] => True
  | call :: calls => Atomic g call ∧ AllAtomic (g.apply call).1 calls

/-- The calls that do not return `Err`. -/
def accepted (g : Graph) : List Call → List Call
  | [] => []
  | call :: calls =>
    match (g.apply call).2 with
    | .err _ => accepted (g.apply call).1 calls
    | _ => call :: accepted (g.apply call).1 calls

/-! ## What the calls do -/

section Calls

variable {g : Graph} {stream operator source multiJoin : ℕ} {consumer : Consumer}
  {fromId toId targetId : ℤ} {typeName : String} {call : Call}

theorem SameWiring.refl (g : Graph) : SameWiring g g := ⟨rfl, rfl, rfl, rfl, fun _ _ => rfl⟩

/-- A new link is seen in the graph. -/
theorem not_sameWiring_of_addLink {g' : Graph}
    (h : g'.graphLinks = (g.addLink fromId toId typeName).graphLinks) : ¬ SameWiring g g' := by
  intro hsame
  have hmem := mem_registerGraphLink_self g.graphLinks
    ⟨fromId, toId, g.setting.environment.callSemantics fromId toId, typeName, g.nextCounter⟩
  have heq : registerGraphLink g.graphLinks _ = g.graphLinks := h.symm.trans hsame.graphLinks
  rw [heq] at hmem
  exact (g.allocated _ hmem).false

theorem newLinkCollector_cases (g : Graph) (consumer : Consumer) (fromId toId : ℤ)
    (typeName : String) :
    (¬ Builds g fromId toId ∧
      ∃ error, g.newLinkCollector consumer fromId toId typeName = .error error) ∨
    (Builds g fromId toId ∧
      ∃ caller, g.newLinkCollector consumer fromId toId typeName =
        .ok (⟨consumer, caller, g.nextCounter⟩, g.addLink fromId toId typeName)) := by
  unfold Graph.newLinkCollector Builds
  cases g.selectCaller fromId toId with
  | error error => exact .inl ⟨nofun, error, rfl⟩
  | ok caller => exact .inr ⟨⟨caller, rfl⟩, caller, rfl⟩

/-- `try_set_typed_consumer` fails without any effect, or connects the stream. -/
theorem trySetTypedConsumer_cases (g : Graph) (stream : ℕ) (consumer : Consumer) (targetId : ℤ) :
    (((g.streams stream).downstream ≠ none ∨ ¬ Builds g (g.streams stream).id targetId) ∧
      ∃ error, g.trySetTypedConsumer stream consumer targetId = (g, .err error)) ∨
    ((g.streams stream).downstream = none ∧ Builds g (g.streams stream).id targetId ∧
      ∃ collector, g.trySetTypedConsumer stream consumer targetId =
        ((g.addLink (g.streams stream).id targetId (g.streams stream).typeName).setDownstream stream
          (.typed collector), .ok)) := by
  simp only [Graph.trySetTypedConsumer]
  cases hdown : (g.streams stream).downstream with
  | some dispatch => exact .inl ⟨.inl nofun, _, rfl⟩
  | none =>
    rcases newLinkCollector_cases g consumer (g.streams stream).id targetId
      (g.streams stream).typeName with ⟨hb, error, hnew⟩ | ⟨hb, caller, hnew⟩
    · exact .inl ⟨.inr hb, error, by simp only [hnew]⟩
    · refine .inr ⟨rfl, hb, ⟨consumer, caller, g.nextCounter⟩, ?_⟩
      simp only [hnew, Graph.addLink, hdown]

theorem trySetConsumer_cases (g : Graph) (stream : ℕ) (consumer : Consumer) (targetId : ℤ) :
    (¬ Builds g (g.streams stream).id targetId ∧
      ∃ error, g.trySetConsumer stream consumer targetId = (g, .err error)) ∨
    (Builds g (g.streams stream).id targetId ∧ (g.streams stream).downstream = none ∧
      ∃ collector, g.trySetConsumer stream consumer targetId =
        ((g.addLink (g.streams stream).id targetId (g.streams stream).typeName).setDownstream stream
          (.dynamic collector), .ok)) ∨
    (Builds g (g.streams stream).id targetId ∧ (g.streams stream).downstream ≠ none ∧
      g.trySetConsumer stream consumer targetId =
        (g.addLink (g.streams stream).id targetId (g.streams stream).typeName,
          .err (.consumerAlreadySet (g.streams stream).name))) := by
  unfold Graph.trySetConsumer
  rcases newLinkCollector_cases g consumer (g.streams stream).id targetId
    (g.streams stream).typeName with ⟨hb, error, hnew⟩ | ⟨hb, caller, hnew⟩
  · exact .inl ⟨hb, error, by simp only [hnew]⟩
  · cases hdown : (g.streams stream).downstream with
    | none =>
      refine .inr (.inl ⟨hb, rfl, ⟨consumer, caller, g.nextCounter⟩, ?_⟩)
      simp only [hnew, Graph.addLink, hdown]
    | some dispatch =>
      refine .inr (.inr ⟨hb, nofun, ?_⟩)
      simp only [hnew, Graph.addLink, hdown]

theorem takeIndex_ne : (g.takeIndex multiJoin).multiJoins ≠ g.multiJoins := by
  intro h
  have hindex := congrArg MultiJoin.nextIndex (congrFun h multiJoin)
  simp only [Graph.takeIndex, Function.update_self] at hindex
  omega

/-- Connecting a source and recording it fails without any effect, or succeeds, or fails after the
source has been connected. -/
theorem recordSource_cases (g : Graph) (operator source : ℕ) (consumer : Consumer) (targetId : ℤ)
    (name : String) :
    (((g.streams source).downstream ≠ none ∨ ¬ Builds g (g.streams source).id targetId) ∧
      ∃ error, Graph.recordSource operator source name
        (g.trySetTypedConsumer source consumer targetId) = (g, .err error)) ∨
    ((g.operators operator).source = none ∧
      (Graph.recordSource operator source name
        (g.trySetTypedConsumer source consumer targetId)).2 = .ok) ∨
    ((g.operators operator).source ≠ none ∧ (g.streams source).downstream = none ∧
      Builds g (g.streams source).id targetId ∧
      (Graph.recordSource operator source name
        (g.trySetTypedConsumer source consumer targetId)).2 = .err (.sourceAlreadySet name) ∧
      (Graph.recordSource operator source name
        (g.trySetTypedConsumer source consumer targetId)).1.graphLinks =
        (g.addLink (g.streams source).id targetId (g.streams source).typeName).graphLinks) := by
  rcases trySetTypedConsumer_cases g source consumer targetId with
    ⟨hfail, error, herr⟩ | ⟨hdown, hb, collector, hok⟩
  · exact .inl ⟨hfail, error, by rw [herr]; rfl⟩
  · rw [hok]
    cases hsource : (g.operators operator).source with
    | none =>
      refine .inr (.inl ⟨rfl, ?_⟩)
      simp only [Graph.recordSource, Graph.setDownstream, Graph.addLink, hsource]
    | some other =>
      refine .inr (.inr ⟨nofun, hdown, hb, ?_⟩)
      simp only [Graph.recordSource, Graph.setDownstream, Graph.addLink, hsource, and_self]

/-- With no source recorded, connecting one fails only without effect. -/
theorem recordSource_unchanged {name : String} (h : (g.operators operator).source = none)
    (he : (Graph.recordSource operator source name
      (g.trySetTypedConsumer source consumer targetId)).2.IsErr) :
    (Graph.recordSource operator source name
      (g.trySetTypedConsumer source consumer targetId)).1 = g := by
  rcases recordSource_cases g operator source consumer targetId name with
    ⟨-, error, herr⟩ | ⟨-, hok⟩ | ⟨hsource, -⟩
  · rw [herr]
  · rw [hok] at he
    exact he.elim
  · exact absurd h hsource

theorem setSourceTyped_unchanged (h : Atomic g (.setSource operator source))
    (he : (g.setSourceTyped operator source).2.IsErr) :
    (g.setSourceTyped operator source).1 = g := by
  simp only [Graph.setSourceTyped] at he ⊢
  cases hkind : (g.operators operator).kind with
  | input =>
    simp only [hkind] at he ⊢
    rcases recordSource_cases g operator source (.resultLink operator)
      (g.streams (g.operators operator).stream).id
      (g.streams (g.operators operator).stream).name with
      ⟨-, error, herr⟩ | ⟨-, hok⟩ | ⟨hsource, hdown, hb, -⟩
    · rw [herr]
    · rw [hok] at he
      exact he.elim
    · rcases h hkind with h | h | h
      · exact absurd h hsource
      · exact absurd hdown h
      · exact absurd hb h
  | link =>
    simp only [hkind] at he ⊢
    cases hsource : (g.operators operator).source with
    | some other => simp only [Option.isSome_some, if_true]
    | none =>
      simp only [hsource, Option.isSome_none, Bool.false_eq_true, if_false] at he ⊢
      exact recordSource_unchanged hsource he
  | subStream serviceId =>
    simp only [hkind] at he ⊢
    cases hsource : (g.operators operator).source with
    | some other => simp only [Option.isSome_some, if_true]
    | none =>
      simp only [hsource, Option.isSome_none, Bool.false_eq_true, if_false] at he ⊢
      split_ifs at he ⊢ with hid
      · rfl
      cases hservice : g.serviceOf (g.streams source).id with
      | none => rfl
      | some id =>
        simp only [hservice] at he ⊢
        split_ifs at he ⊢ with hne
        · rfl
        · exact recordSource_unchanged hsource he

/-- An atomic call that returns `Err` has no effect. -/
theorem unchanged_of_atomic (h : Atomic g call) (he : (g.apply call).2.IsErr) :
    (g.apply call).1 = g := by
  cases call with
  | trySetConsumer stream consumer targetId =>
    rcases trySetConsumer_cases g stream consumer targetId with
      ⟨-, error, herr⟩ | ⟨-, -, collector, hok⟩ | ⟨hb, hdown, -⟩
    · simp only [Graph.apply, herr]
    · simp only [Graph.apply, hok] at he
      exact he.elim
    · rcases h with h | h
      · exact absurd h hdown
      · exact absurd hb h
  | trySetTypedConsumer stream consumer targetId =>
    rcases trySetTypedConsumer_cases g stream consumer targetId with
      ⟨-, error, herr⟩ | ⟨-, -, collector, hok⟩
    · simp only [Graph.apply, herr]
    · simp only [Graph.apply, hok] at he
      exact he.elim
  | setSource operator source => exact setSourceTyped_unchanged h he
  | add multiJoin source =>
    rcases trySetTypedConsumer_cases (g.takeIndex multiJoin) source
      (.multiJoinLink multiJoin (g.multiJoins multiJoin).nextIndex)
      (g.streams (g.multiJoins multiJoin).output).id with
      ⟨hdown | hb, -⟩ | ⟨-, -, collector, hok⟩
    · exact absurd h.1 hdown
    · exact absurd h.2 hb
    · simp only [Graph.apply, Graph.addWithCollector, hok] at he
      exact he.elim
  | emit stream => exact he.elim
  | change setting => exact he.elim

/-- A call that is not atomic returns `Err` and leaves the wiring changed. -/
theorem changed_of_not_atomic (h : ¬ Atomic g call) :
    (g.apply call).2.IsErr ∧ ¬ SameWiring g (g.apply call).1 := by
  cases call with
  | trySetConsumer stream consumer targetId =>
    rcases trySetConsumer_cases g stream consumer targetId with
      ⟨hb, -⟩ | ⟨-, hdown, -⟩ | ⟨-, -, herr⟩
    · exact absurd (.inr hb) h
    · exact absurd (.inl hdown) h
    · simp only [Graph.apply, herr]
      exact ⟨trivial, not_sameWiring_of_addLink rfl⟩
  | trySetTypedConsumer stream consumer targetId => exact absurd trivial h
  | setSource operator source =>
    simp only [Atomic, Classical.not_imp, not_or, not_not] at h
    obtain ⟨hkind, hsource, hdown, hb⟩ := h
    simp only [Graph.apply, Graph.setSourceTyped, hkind]
    rcases recordSource_cases g operator source (.resultLink operator)
      (g.streams (g.operators operator).stream).id
      (g.streams (g.operators operator).stream).name with
      ⟨hfail | hfail, -⟩ | ⟨hnone, -⟩ | ⟨-, -, -, herr, hlinks⟩
    · exact absurd hdown hfail
    · exact absurd hb hfail
    · exact absurd hnone hsource
    · rw [herr]
      exact ⟨trivial, not_sameWiring_of_addLink hlinks⟩
  | add multiJoin source =>
    rcases trySetTypedConsumer_cases (g.takeIndex multiJoin) source
      (.multiJoinLink multiJoin (g.multiJoins multiJoin).nextIndex)
      (g.streams (g.multiJoins multiJoin).output).id with
      ⟨-, error, herr⟩ | ⟨hdown, hb, -⟩
    · simp only [Graph.apply, Graph.addWithCollector, herr]
      exact ⟨trivial, fun hsame => takeIndex_ne hsame.multiJoins⟩
    · exact absurd ⟨hdown, hb⟩ h
  | emit stream => exact absurd trivial h
  | change setting => exact absurd trivial h

/-- Exactly the atomic calls leave the wiring alone when they return `Err`. -/
theorem unchanged_iff_atomic :
    ((g.apply call).2.IsErr → SameWiring g (g.apply call).1) ↔ Atomic g call := by
  constructor
  · intro h
    by_contra hn
    obtain ⟨he, hchanged⟩ := changed_of_not_atomic hn
    exact hchanged (h he)
  · intro h he
    rw [unchanged_of_atomic h he]
    exact SameWiring.refl g

end Calls

/-! ## Main results -/

/-- **Wiring.** A call that returns `Err` leaves the wiring as it was if and only if it is atomic. In
every sequence of atomic calls, the graph is the one that the calls that did not return `Err` build
on their own. -/
theorem wiring_atomic {g : Graph} {calls : List Call} (h : AllAtomic g calls) :
    (∀ (g : Graph) call, ((g.apply call).2.IsErr → SameWiring g (g.apply call).1) ↔
      Atomic g call) ∧
    g.applyAll calls = g.applyAll (accepted g calls) := by
  refine ⟨fun g call => unchanged_iff_atomic, ?_⟩
  induction calls generalizing g with
  | nil => rfl
  | cons call calls ih =>
    obtain ⟨hatomic, hrest⟩ := h
    rw [Graph.applyAll, ih hrest, accepted]
    cases he : (g.apply call).2 with
    | err error =>
      have hsame : (g.apply call).1 = g := unchanged_of_atomic hatomic (by rw [he]; trivial)
      simp only [hsame]
    | ok => rfl
    | panicked => rfl

/-! ## Runs -/

/-- No pools, no configured links, no metrics. -/
def plainSetting : Setting where
  environment := ⟨none, .withDefaultCallSemantics .functionCall, ∅, ∅⟩
  idService _ := some 1
  messagesTotal _ _ := .ok ()

/-- Streams that are not wired; stream `n` has the id `n`. -/
def plainGraph : Graph where
  setting := plainSetting
  streams n := ⟨n, "stream", "Order", none⟩
  operators n := ⟨.input, n, none⟩
  multiJoins n := ⟨n, 1⟩
  graphLinks := []
  counters _ := 0
  nextCounter := 0
  allocated := nofun

/-- What the graph reports for a link: the value of its counter. -/
def reported (g : Graph) (fromId toId : ℤ) : Option ℤ :=
  (g.graphLinks.find? fun link => link.fromId = fromId ∧ link.toId = toId).map fun link =>
    g.counters link.calls

/-- Stream 1 gets a consumer in stream 2, and three messages pass. -/
def connected : Graph :=
  plainGraph.applyAll [.trySetConsumer 1 (.other 0) 2, .emit 1, .emit 1, .emit 1]

/-- A second consumer is refused, and from then on the graph reports a counter that nobody counts
with: 0 now, and 0 after a further message, where the first one stands at 4. An input stream that
has its source refuses another one, which has been connected to it all the same. A multi-join loses
an index to a source that refuses. -/
theorem refused_calls_leave_effects :
    (reported connected 1 2 = some 3 ∧
      (connected.apply (.trySetConsumer 1 (.other 1) 2)).2 =
        .err (.consumerAlreadySet "stream") ∧
      reported (connected.apply (.trySetConsumer 1 (.other 1) 2)).1 1 2 = some 0 ∧
      reported ((connected.apply (.trySetConsumer 1 (.other 1) 2)).1.emit 1) 1 2 = some 0 ∧
      reported (connected.emit 1) 1 2 = some 4) ∧
    (((plainGraph.applyAll [.setSource 5 6]).apply (.setSource 5 7)).2 =
        .err (.sourceAlreadySet "stream") ∧
      ((plainGraph.applyAll [.setSource 5 6]).streams 7).downstream.isNone ∧
      ((plainGraph.applyAll [.setSource 5 6, .setSource 5 7]).streams 7).downstream.isSome) ∧
    (((plainGraph.applyAll [.add 8 6]).apply (.add 8 6)).2 = .err (.consumerAlreadySet "stream") ∧
      ((plainGraph.applyAll [.add 8 6]).multiJoins 8).nextIndex = 2 ∧
      ((plainGraph.applyAll [.add 8 6, .add 8 6]).multiJoins 8).nextIndex = 3) :=
  ⟨⟨rfl, rfl, rfl, rfl, rfl⟩, ⟨rfl, rfl, rfl⟩, rfl, rfl, rfl⟩

/-- A typed consumer is refused where there is one, without effect. -/
theorem wiring_atomic_typed :
    AllAtomic plainGraph [.trySetTypedConsumer 1 (.other 0) 2, .trySetTypedConsumer 1 (.other 1) 2] ∧
    plainGraph.applyAll
        [.trySetTypedConsumer 1 (.other 0) 2, .trySetTypedConsumer 1 (.other 1) 2] =
      plainGraph.applyAll [.trySetTypedConsumer 1 (.other 0) 2] :=
  have h : AllAtomic plainGraph
      [.trySetTypedConsumer 1 (.other 0) 2, .trySetTypedConsumer 1 (.other 1) 2] :=
    ⟨trivial, trivial, trivial⟩
  ⟨h, (wiring_atomic h).2⟩

end Wiring

end ServiceLib
