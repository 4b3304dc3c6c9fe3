import Mathlib.Data.List.Sort
import ServiceLib.Operators.Wiring

/-!
# Fan-out

Follows `src/operators/split.rs` and `src/operators/case.rs`. A split emits its payload to every
branch, a case to the branch that a selector names. The branches of both are either an array (or a
vector) of streams, or a nested tuple of collectors, each with an output type of its own.

A panic is an error of the model, and what is emitted is the list of the messages that the links of
the branches get.

**Theorem (`fan_out_agrees`).** The nested tuple and the array of its streams have the same length,
the same streams and the same emissions at every index, and below the length neither panics. A split
over either of them that has been built dispatches to its asynchronous branches first, otherwise in
order, and emits to each branch once, with a payload of the same value.

The idea: both forms represent one list of streams (`Represents`), and the split only uses that.
-/

namespace ServiceLib

namespace FanOut

open Wiring (StreamInner Dispatch LinkCollector)

/-! ## Payloads -/

/-- `Payload<T>`; an `Arc` is the value behind it. -/
inductive Payload (T : Type) where
  | owned (value : T)
  | shared (value : T)
deriving DecidableEq

namespace Payload

variable {T : Type}

def intoArc : Payload T → T
  | .owned value => value
  | .shared value => value

def share (payload : Payload T) : Payload T × Payload T :=
  let value := payload.intoArc
  (.shared value, .shared value)

/-- `into_value`; `unique` is whether this is the only handle, and `clone` that of `T`. -/
def intoValue (clone : T → T) (unique : Bool) : Payload T → T
  | .owned value => value
  | .shared value => if unique then value else clone value

/-- `Deref` -/
def value : Payload T → T
  | .owned value => value
  | .shared value => value

theorem share_value (payload : Payload T) :
    payload.share.1.value = payload.value ∧ payload.share.2.value = payload.value := by
  cases payload <;> exact ⟨rfl, rfl⟩

/-- A receiver may take the value out of any of the handles. -/
theorem intoValue_eq {clone : T → T} (hclone : ∀ value, clone value = value) (unique : Bool)
    (payload : Payload T) : payload.intoValue clone unique = payload.value := by
  cases payload with
  | owned value => rfl
  | shared value => cases unique <;> simp [intoValue, Payload.value, hclone]

end Payload

/-! ## Streams and collectors -/

/-- A message that the link of a branch gets. -/
structure Emission (Ctx T : Type) where
  link : LinkCollector
  context : Ctx
  payload : Payload T

/-- The panics of the branch collections. -/
inductive Panic where
  /-- The index of an array or of a vector. -/
  | indexOutOfBounds
  | splitBranch
  | caseUnreachable
  | caseSelector (index len : ℕ)
  /-- An `expect`. -/
  | expect (text : String)
deriving DecidableEq

variable {Ctx T : Type}

/-- `LinkCollector::out_payload`, which is `consume` of a typed dispatch. -/
def outPayload (link : LinkCollector) (context : Ctx) (payload : Payload T) :
    List (Emission Ctx T) :=
  [⟨link, context, payload⟩]

/-- `Stream::emit` -/
def emit (stream : StreamInner) (context : Ctx) (payload : Payload T) : List (Emission Ctx T) :=
  match stream.downstream with
  | none => []
  | some dispatch => outPayload dispatch.collector context payload

/-- `StreamDispatch::is_async` -/
def isAsync (dispatch : Dispatch) : Bool :=
  match dispatch.collector.caller with
  | .functionCall async => async
  | _ => true

variable (Ctx T) in
/-- A type `C : Collect<T>`. -/
structure Output where
  Carrier : Type
  outPayload : Carrier → Ctx → Payload T → List (Emission Ctx T)

/-- `Collector<T, C>`: its output emits what its stream emits. -/
structure Collector (C : Output Ctx T) where
  stream : StreamInner
  output : C.Carrier
  wired : C.outPayload output = emit stream

variable (Ctx T) in
/-- `Stream<T> : Collect<T>` -/
def streamOutput : Output Ctx T := ⟨StreamInner, emit⟩

variable (Ctx T) in
/-- `Arc<LinkCollector<T>> : Collect<T>` -/
def linkOutput : Output Ctx T := ⟨LinkCollector, outPayload⟩

namespace Collector

/-- `Collector::from_stream` -/
def fromStream (stream : StreamInner) : Collector (streamOutput Ctx T) := ⟨stream, stream, rfl⟩

/-- `Collector::from_output`, as `try_set_typed_consumer` calls it. -/
def fromOutput (stream : StreamInner) (link : LinkCollector)
    (h : stream.downstream = some (.typed link)) : Collector (linkOutput Ctx T) where
  stream := stream
  output := link
  wired := by
    funext context payload
    rw [emit, h]
    rfl

end Collector

/-- Nested tuples `(Collector<T, C1>, (Collector<T, C2>, ..))`. -/
def Tuple : List (Output Ctx T) → Type
  | [] => Unit
  | C :: Cs => Collector C × Tuple Cs

/-- The streams of a nested tuple. -/
def streams : (Cs : List (Output Ctx T)) → Tuple Cs → List StreamInner
  | [], _ => []
  | _ :: Cs, (collector, rest) => collector.stream :: streams Cs rest

theorem length_streams (Cs : List (Output Ctx T)) (links : Tuple Cs) :
    (streams Cs links).length = Cs.length := by
  induction Cs with
  | nil => rfl
  | cons C Cs ih =>
    obtain ⟨collector, rest⟩ := links
    rw [streams, List.length_cons, List.length_cons, ih]

/-! ## Branch collections -/

variable (Ctx T) in
/-- The trait `SplitOutputs<T>`, for one type. -/
structure SplitOutputs (B : Type) where
  len : B → ℕ
  stream : B → ℕ → Except Panic StreamInner
  emitAt : B → ℕ → Ctx → Payload T → Except Panic (List (Emission Ctx T))

/-- `array[index]` -/
def indexed {α : Type} (branches : List α) (index : ℕ) : Except Panic α :=
  match branches[index]? with
  | none => .error .indexOutOfBounds
  | some branch => .ok branch

variable (Ctx T) in
/-- `[Stream<T>; N]` -/
def arrayOutputs (n : ℕ) : SplitOutputs Ctx T (List.Vector StreamInner n) where
  len _ := n
  stream links index := indexed links.toList index
  emitAt links index context payload := do
    return emit (← indexed links.toList index) context payload

variable (Ctx T) in
def unitOutputs : SplitOutputs Ctx T Unit where
  len _ := 0
  stream _ _ := .error .splitBranch
  emitAt _ _ _ _ := .error .splitBranch

/-- `(Collector<T, C>, Rest)` -/
def pairOutputs {Rest : Type} (C : Output Ctx T) (outputs : SplitOutputs Ctx T Rest) :
    SplitOutputs Ctx T (Collector C × Rest) where
  len links := 1 + outputs.len links.2
  stream links index :=
    if index = 0 then .ok links.1.stream else outputs.stream links.2 (index - 1)
  emitAt links index context payload :=
    if index = 0 then .ok (C.outPayload links.1.output context payload)
    else outputs.emitAt links.2 (index - 1) context payload

def tupleOutputs : (Cs : List (Output Ctx T)) → SplitOutputs Ctx T (Tuple Cs)
  | [] => unitOutputs Ctx T
  | C :: Cs => pairOutputs C (tupleOutputs Cs)

/-- `WhenStream<T>` -/
structure WhenStream where
  output : StreamInner

variable (Ctx T) in
/-- The trait `CaseBranches<T>`, for one type. -/
structure CaseBranches (B : Type) where
  len : B → ℕ
  stream : B → ℕ → Option StreamInner
  consumeCase : B → ℕ → Ctx → Payload T → Except Panic (List (Emission Ctx T))

variable (Ctx T) in
/-- `Vec<Arc<dyn When<T>>>` -/
def vecBranches : CaseBranches Ctx T (List WhenStream) where
  len branches := branches.length
  stream branches index := (branches[index]?).map WhenStream.output
  consumeCase branches index context payload := do
    return emit (← indexed branches index).output context payload

variable (Ctx T) in
def unitBranches : CaseBranches Ctx T Unit where
  len _ := 0
  stream _ _ := none
  consumeCase _ _ _ _ := .error .caseUnreachable

/-- `(Collector<T, C>, Rest)` -/
def pairBranches {Rest : Type} (C : Output Ctx T) (branches : CaseBranches Ctx T Rest) :
    CaseBranches Ctx T (Collector C × Rest) where
  len links := 1 + branches.len links.2
  stream links index :=
    if index = 0 then some links.1.stream else branches.stream links.2 (index - 1)
  consumeCase links index context payload :=
    if index = 0 then .ok (C.outPayload links.1.output context payload)
    else branches.consumeCase links.2 (index - 1) context payload

def tupleBranches : (Cs : List (Output Ctx T)) → CaseBranches Ctx T (Tuple Cs)
  | [] => unitBranches Ctx T
  | C :: Cs => pairBranches C (tupleBranches Cs)

/-! ## The operators -/

variable (Ctx) in
/-- `SplitStream<T, N, B>`; `startSpan` is that of its own stream. -/
structure SplitStream (B : Type) where
  startSpan : Ctx → Ctx
  n : ℕ
  links : B
  dispatchOrder : List ℕ

section SplitStream

variable {B : Type} (outputs : SplitOutputs Ctx T B)

/-- `SplitStream::from_typed` -/
def fromTyped (startSpan : Ctx → Ctx) (name : String) (n : ℕ) (links : B) :
    RuntimeResult (SplitStream Ctx B) :=
  let received := outputs.len links
  if received ≠ n then
    .error (.invalidConfiguration s!"split {name} requires {n} branches, received {received}")
  else .ok ⟨startSpan, n, links, List.range n⟩

/-- The loop of `build`: every branch has a consumer. -/
def validateLinks (links : B) : List ℕ → Except Panic (RuntimeResult Unit)
  | [] => .ok (.ok ())
  | index :: rest => do
    let link ← outputs.stream links index
    if link.downstream.isNone then return .error (.consumerNotSet link.name)
    else validateLinks links rest

/-- The key that `build` sorts by, beside its index. -/
def sortKey (links : B) (index : ℕ) : Except Panic (ℕ × Bool) := do
  let link ← outputs.stream links index
  match link.downstream with
  | none => .error (.expect "split link was validated")
  | some dispatch => return (index, !isAsync dispatch)

/-- `sort_by_key`, which is stable. -/
def sortByKey (keys : List (ℕ × Bool)) : List ℕ :=
  (keys.insertionSort fun a b => a.2 ≤ b.2).map Prod.fst

/-- `SplitStream::build` -/
def build (split : SplitStream Ctx B) : Except Panic (RuntimeResult (SplitStream Ctx B)) := do
  match ← validateLinks outputs split.links (List.range split.n) with
  | .error e => return .error e
  | .ok () =>
    let keys ← (List.range split.n).mapM (sortKey outputs split.links)
    return .ok { split with dispatchOrder := sortByKey keys }

/-- The loop of `consume`. -/
def dispatch (links : B) (n : ℕ) :
    ℕ → List ℕ → Option Ctx → Option (Payload T) → Except Panic (List (Emission Ctx T))
  | _, [], _, _ => .ok []
  | _, _ :: _, none, _ => .error (.expect "split context is available")
  | _, _ :: _, some _, none => .error (.expect "split payload is available")
  | position, index :: rest, some context, some payload =>
    if position + 1 = n then do
      let emitted ← outputs.emitAt links index context payload
      return emitted ++ (← dispatch links n (position + 1) rest none none)
    else do
      let (branch, remaining) := payload.share
      let emitted ← outputs.emitAt links index context branch
      return emitted ++ (← dispatch links n (position + 1) rest (some context) (some remaining))

/-- `SplitStream::consume` -/
def SplitStream.consume (split : SplitStream Ctx B) (context : Ctx) (payload : Payload T) :
    Except Panic (List (Emission Ctx T)) :=
  dispatch outputs split.links split.n 0 split.dispatchOrder (some (split.startSpan context))
    (some payload)

end SplitStream

/-- `CaseStream::consume`; `startSpan` is that of the branch. -/
def consumeCase {B : Type} (branches : CaseBranches Ctx T B) (select : T → ℕ)
    (startSpan : StreamInner → Ctx → Ctx) (links : B) (context : Ctx) (payload : Payload T) :
    Except Panic (List (Emission Ctx T)) :=
  let index := select payload.value
  match branches.stream links index with
  | none => .error (.caseSelector index (branches.len links))
  | some branch => branches.consumeCase links index (startSpan branch context) payload

/-! ## One list of streams -/

/-- The branches of a split are these streams. -/
structure Represents {B : Type} (outputs : SplitOutputs Ctx T B) (links : B)
    (branches : List StreamInner) : Prop where
  len : outputs.len links = branches.length
  stream : ∀ index, (outputs.stream links index).toOption = branches[index]?
  emitAt : ∀ index context payload, (outputs.emitAt links index context payload).toOption =
    (branches[index]?).map fun stream => emit stream context payload

/-- The branches of a case are these streams. -/
structure CaseRepresents {B : Type} (branches : CaseBranches Ctx T B) (links : B)
    (all : List StreamInner) : Prop where
  len : branches.len links = all.length
  stream : ∀ index, branches.stream links index = all[index]?
  consumeCase : ∀ index context payload,
    (branches.consumeCase links index context payload).toOption =
      (all[index]?).map fun stream => emit stream context payload

theorem indexed_toOption {α : Type} (branches : List α) (index : ℕ) :
    (indexed branches index).toOption = branches[index]? := by
  rw [indexed]
  cases branches[index]? <;> rfl

theorem indexed_bind {α β : Type} (branches : List α) (index : ℕ) (f : α → β) :
    (do return f (← indexed branches index) : Except Panic β).toOption =
      (branches[index]?).map f := by
  rw [indexed]
  cases branches[index]? <;> rfl

theorem array_represents {n : ℕ} (links : List.Vector StreamInner n) :
    Represents (arrayOutputs Ctx T n) links links.toList where
  len := links.toList_length.symm
  stream := indexed_toOption links.toList
  emitAt index _ _ := indexed_bind links.toList index _

theorem vec_represents (links : List StreamInner) :
    CaseRepresents (vecBranches Ctx T) (links.map WhenStream.mk) links where
  len := List.length_map _
  stream index := by
    show ((links.map WhenStream.mk)[index]?).map WhenStream.output = _
    rw [List.getElem?_map, Option.map_map]
    exact Option.map_id'
  consumeCase index context payload := by
    refine (indexed_bind _ index fun branch : WhenStream => emit branch.output context payload).trans
      ?_
    rw [List.getElem?_map, Option.map_map]
    rfl

/-- The nested tuple, by induction on it: the head is the first stream, and the rest is at indices
that are one lower. -/
theorem tuple_represents (Cs : List (Output Ctx T)) (links : Tuple Cs) :
    Represents (tupleOutputs Cs) links (streams Cs links) := by
  induction Cs with
  | nil => exact ⟨rfl, fun _ => rfl, fun _ _ _ => rfl⟩
  | cons C Cs ih =>
    obtain ⟨collector, rest⟩ := links
    have hrest := ih rest
    refine ⟨?_, ?_, ?_⟩
    · show 1 + (tupleOutputs Cs).len rest = (streams Cs rest).length + 1
      rw [hrest.len, Nat.add_comm]
    · intro index
      cases index with
      | zero => rfl
      | succ index => exact hrest.stream index
    · intro index context payload
      cases index with
      | zero =>
        show some (C.outPayload collector.output context payload) = _
        rw [collector.wired]
        rfl
      | succ index => exact hrest.emitAt index context payload

theorem tuple_caseRepresents (Cs : List (Output Ctx T)) (links : Tuple Cs) :
    CaseRepresents (tupleBranches Cs) links (streams Cs links) := by
  induction Cs with
  | nil => exact ⟨rfl, fun _ => rfl, fun _ _ _ => rfl⟩
  | cons C Cs ih =>
    obtain ⟨collector, rest⟩ := links
    have hrest := ih rest
    refine ⟨?_, ?_, ?_⟩
    · show 1 + (tupleBranches Cs).len rest = (streams Cs rest).length + 1
      rw [hrest.len, Nat.add_comm]
    · intro index
      cases index with
      | zero => rfl
      | succ index => exact hrest.stream index
    · intro index context payload
      cases index with
      | zero =>
        show some (C.outPayload collector.output context payload) = _
        rw [collector.wired]
        rfl
      | succ index => exact hrest.consumeCase index context payload

/-! ## The order of dispatch -/

/-- The branch at an index is called asynchronously. -/
def asyncAt (branches : List StreamInner) (index : ℕ) : Bool :=
  (branches[index]?).any fun stream => stream.downstream.any isAsync

/-- The indices of asynchronous branches, and then the others, in order. -/
def asyncFirst (branches : List StreamInner) : List ℕ :=
  (List.range branches.length).filter (asyncAt branches) ++
    (List.range branches.length).filter fun index => !asyncAt branches index

theorem asyncFirst_perm (branches : List StreamInner) :
    (asyncFirst branches).Perm (List.range branches.length) :=
  List.filter_append_perm _ _

/-- An element with the greater key goes between the two halves. -/
theorem orderedInsert_between {a : ℕ × Bool} (ha : a.2 = true) {front back : List (ℕ × Bool)}
    (hfront : ∀ b ∈ front, b.2 = false) (hback : ∀ b ∈ back, b.2 = true) :
    List.orderedInsert (fun a b => a.2 ≤ b.2) a (front ++ back) = front ++ a :: back := by
  induction front with
  | nil =>
    cases back with
    | nil => rfl
    | cons b back =>
      have hb := hback b List.mem_cons_self
      exact List.orderedInsert_cons_of_le _ _ (by rw [ha, hb])
  | cons b front ih =>
    have hb := hfront b List.mem_cons_self
    rw [List.cons_append, List.orderedInsert_cons, if_neg (by rw [ha, hb]; decide),
      ih fun c hc => hfront c (List.mem_cons_of_mem _ hc)]
    rfl

/-- Sorting by a key of two values is a partition that keeps the order. -/
theorem insertionSort_key (keys : List (ℕ × Bool)) :
    (keys.insertionSort fun a b => a.2 ≤ b.2) =
      keys.filter (fun a => !a.2) ++ keys.filter fun a => a.2 := by
  induction keys with
  | nil => rfl
  | cons a keys ih =>
    rw [List.insertionSort_cons, ih]
    by_cases ha : a.2 = true
    · rw [orderedInsert_between ha (by simp) (by simp), List.filter_cons_of_neg (by simp [ha]),
        List.filter_cons_of_pos ha]
    · have hle : ∀ b : ℕ × Bool, a.2 ≤ b.2 := fun b => by simp [Bool.eq_false_iff.mpr ha]
      rw [List.filter_cons_of_pos (by simp [ha]), List.filter_cons_of_neg ha, List.cons_append]
      cases keys.filter (fun a => !a.2) ++ keys.filter fun a => a.2 with
      | nil => rfl
      | cons b rest => exact List.orderedInsert_cons_of_le _ _ (hle b)

theorem sortByKey_map (indices : List ℕ) (key : ℕ → Bool) :
    sortByKey (indices.map fun index => (index, !key index)) =
      indices.filter key ++ indices.filter fun index => !key index := by
  rw [sortByKey, insertionSort_key, List.filter_map, List.filter_map, List.map_append,
    List.map_map, List.map_map]
  congr 1
  · simp [Function.comp_def]
  · simp [Function.comp_def]

/-! ## Building -/

section Build

variable {B : Type} {outputs : SplitOutputs Ctx T B} {links : B} {branches : List StreamInner}

/-- A branch with a consumer. -/
def Connected (branches : List StreamInner) (index : ℕ) : Prop :=
  ∃ stream dispatch, branches[index]? = some stream ∧ stream.downstream = some dispatch

theorem eq_ok_of_toOption {ε α : Type} {x : Except ε α} {a : α} (h : x.toOption = some a) :
    x = .ok a := by
  cases x with
  | error e => cases h
  | ok b => rw [Option.some.inj h]

theorem Represents.stream_ok (h : Represents outputs links branches) {index : ℕ}
    {stream : StreamInner} (hs : branches[index]? = some stream) :
    outputs.stream links index = .ok stream :=
  eq_ok_of_toOption ((h.stream index).trans hs)

theorem Represents.emitAt_ok (h : Represents outputs links branches) {index : ℕ}
    {stream : StreamInner} (hs : branches[index]? = some stream) (context : Ctx)
    (payload : Payload T) :
    outputs.emitAt links index context payload = .ok (emit stream context payload) :=
  eq_ok_of_toOption ((h.emitAt index context payload).trans (by rw [hs]; rfl))

/-- The validation looks at every branch and does not panic. -/
theorem validateLinks_spec (h : Represents outputs links branches) {indices : List ℕ}
    (hlt : ∀ index ∈ indices, index < branches.length) :
    ∃ result, validateLinks outputs links indices = .ok result ∧
      (result = .ok () → ∀ index ∈ indices, Connected branches index) := by
  induction indices with
  | nil => exact ⟨.ok (), rfl, by simp⟩
  | cons index rest ih =>
    obtain ⟨hindex, hrest⟩ := List.forall_mem_cons.mp hlt
    have hs : branches[index]? = some branches[index] := List.getElem?_eq_getElem hindex
    simp only [validateLinks, h.stream_ok hs, bind, Except.bind]
    cases hdown : branches[index].downstream with
    | none => exact ⟨_, rfl, by simp⟩
    | some dispatch =>
      obtain ⟨result, hresult, hall⟩ := ih hrest
      refine ⟨result, hresult, fun hok => ?_⟩
      exact List.forall_mem_cons.mpr ⟨⟨_, dispatch, hs, hdown⟩, hall hok⟩

theorem sortKey_spec (h : Represents outputs links branches) {index : ℕ}
    (hc : Connected branches index) :
    sortKey outputs links index = .ok (index, !asyncAt branches index) := by
  obtain ⟨stream, dispatch, hs, hdown⟩ := hc
  simp only [sortKey, h.stream_ok hs, bind, Except.bind, hdown, asyncAt, hs, Option.any_some]
  rfl

theorem mapM_sortKey (h : Represents outputs links branches) {indices : List ℕ}
    (hc : ∀ index ∈ indices, Connected branches index) :
    indices.mapM (sortKey outputs links) =
      .ok (indices.map fun index => (index, !asyncAt branches index)) := by
  induction indices with
  | nil => rfl
  | cons index rest ih =>
    obtain ⟨hindex, hrest⟩ := List.forall_mem_cons.mp hc
    rw [List.mapM_cons, sortKey_spec h hindex, ih hrest]
    rfl

/-- `build` does not panic; if it succeeds, every branch has a consumer, and the order of dispatch
is that of the asynchronous branches first. -/
theorem build_spec {split : SplitStream Ctx B} (h : Represents outputs split.links branches)
    (hn : split.n = branches.length) :
    ∃ result, build outputs split = .ok result ∧
      ∀ split', result = .ok split' →
        split' = { split with dispatchOrder := asyncFirst branches } ∧
        ∀ index, index < branches.length → Connected branches index := by
  have hlt : ∀ index ∈ List.range branches.length, index < branches.length := by
    intro index hindex
    exact List.mem_range.mp hindex
  obtain ⟨checked, hchecked, hall⟩ := validateLinks_spec h hlt
  simp only [build, hn, hchecked, bind, Except.bind]
  cases checked with
  | error e => exact ⟨_, rfl, fun split' hsplit => by cases hsplit⟩
  | ok u =>
    have hconnected := hall rfl
    simp only [mapM_sortKey h hconnected, sortByKey_map]
    refine ⟨_, rfl, fun split' hsplit => ?_⟩
    cases hsplit
    exact ⟨rfl, fun index hindex => hconnected index (List.mem_range.mpr hindex)⟩

/-! ## Dispatching -/

/-- The link of a branch. -/
def linkAt (branches : List StreamInner) (index : ℕ) : Option LinkCollector :=
  (branches[index]?).bind fun stream => stream.downstream.map Dispatch.collector

/-- The links of these branches get one message each, in order, with the context and the value. -/
structure EmitsOnce (branches : List StreamInner) (order : List ℕ) (context : Ctx) (value : T)
    (emitted : List (Emission Ctx T)) : Prop where
  links : emitted.map (fun e => some e.link) = order.map (linkAt branches)
  context : ∀ e ∈ emitted, e.context = context
  value : ∀ e ∈ emitted, e.payload.value = value

theorem emit_connected {stream : StreamInner} {link : Dispatch} (h : stream.downstream = some link)
    (context : Ctx) (payload : Payload T) :
    emit stream context payload = [⟨link.collector, context, payload⟩] := by
  rw [emit, h]
  rfl

theorem EmitsOnce.cons {order : List ℕ} {index : ℕ} {context : Ctx} {value : T}
    {payload : Payload T} {emitted : List (Emission Ctx T)} {stream : StreamInner}
    {link : Dispatch} (hs : branches[index]? = some stream) (hdown : stream.downstream = some link)
    (hvalue : payload.value = value) (h : EmitsOnce branches order context value emitted) :
    EmitsOnce branches (index :: order) context value
      (emit stream context payload ++ emitted) := by
  rw [emit_connected hdown]
  refine ⟨?_, ?_, ?_⟩
  · have hlink : linkAt branches index = some link.collector := by rw [linkAt, hs, Option.bind_some,
      hdown, Option.map_some]
    rw [List.singleton_append, List.map_cons, List.map_cons, h.links, hlink]
  · exact List.forall_mem_cons.mpr ⟨rfl, h.context⟩
  · exact List.forall_mem_cons.mpr ⟨hvalue, h.value⟩

/-- The loop of `consume`, from a position on: the context and the payload are there until the last
branch takes them. -/
theorem dispatch_spec (h : Represents outputs links branches) {n position : ℕ} {order : List ℕ}
    (hconnected : ∀ index ∈ order, Connected branches index) (hn : position + order.length = n)
    (context : Ctx) (payload : Payload T) :
    ∃ emitted, dispatch outputs links n position order (some context) (some payload) =
        .ok emitted ∧ EmitsOnce branches order context payload.value emitted := by
  induction order generalizing position payload with
  | nil => exact ⟨[], rfl, rfl, by simp, by simp⟩
  | cons index rest ih =>
    obtain ⟨⟨stream, link, hs, hdown⟩, hrest⟩ := List.forall_mem_cons.mp hconnected
    rw [List.length_cons] at hn
    rw [dispatch]
    by_cases hlast : position + 1 = n
    · obtain rfl : rest = [] := List.length_eq_zero_iff.mp (by omega)
      rw [if_pos hlast, h.emitAt_ok hs]
      refine ⟨_, rfl, EmitsOnce.cons hs hdown rfl ⟨rfl, by simp, by simp⟩⟩
    · obtain ⟨hbranch, hremaining⟩ := payload.share_value
      have hnext : position + 1 + rest.length = n := by omega
      obtain ⟨emitted, hemitted, honce⟩ := ih hrest hnext payload.share.2
      rw [if_neg hlast]
      simp only [h.emitAt_ok hs, bind, Except.bind, hemitted]
      exact ⟨_, rfl, EmitsOnce.cons hs hdown hbranch (hremaining ▸ honce)⟩

end Build

/-! ## Typed and dynamic -/

/-- A split over these branches. -/
def FansOut {B : Type} (outputs : SplitOutputs Ctx T B) (links : B)
    (branches : List StreamInner) : Prop :=
  ∀ (startSpan : Ctx → Ctx) (name : String) (n : ℕ) (split : SplitStream Ctx B),
    fromTyped outputs startSpan name n links = .ok split →
    ∃ result, build outputs split = .ok result ∧ ∀ split', result = .ok split' →
      split'.dispatchOrder = asyncFirst branches ∧
      split'.dispatchOrder.Perm (List.range n) ∧
      ∀ context payload, ∃ emitted, split'.consume outputs context payload = .ok emitted ∧
        EmitsOnce branches split'.dispatchOrder (startSpan context) payload.value emitted

theorem Represents.fansOut {B : Type} {outputs : SplitOutputs Ctx T B} {links : B}
    {branches : List StreamInner} (h : Represents outputs links branches) :
    FansOut outputs links branches := by
  intro startSpan name n split hmake
  rw [fromTyped] at hmake
  split at hmake
  case isTrue => cases hmake
  case isFalse hlen =>
    obtain rfl := Except.ok.inj hmake
    have hn : n = branches.length := (not_not.mp hlen).symm.trans h.len
    obtain ⟨result, hresult, hbuilt⟩ :=
      @build_spec _ _ _ outputs branches ⟨startSpan, n, links, List.range n⟩ h hn
    refine ⟨result, hresult, fun split' hsplit => ?_⟩
    obtain ⟨rfl, hconnected⟩ := hbuilt split' hsplit
    have hperm : (asyncFirst branches).Perm (List.range n) := hn ▸ asyncFirst_perm branches
    refine ⟨rfl, hperm, fun context payload => ?_⟩
    refine dispatch_spec h (fun index hindex => ?_) ?_ (startSpan context) payload
    · exact hconnected index (hn ▸ List.mem_range.mp (hperm.mem_iff.mp hindex))
    · rw [Nat.zero_add, hperm.length_eq, List.length_range]

/-- The two forms of the outputs of a split. -/
structure Coincide {B B' : Type} (outputs : SplitOutputs Ctx T B) (links : B)
    (outputs' : SplitOutputs Ctx T B') (links' : B') : Prop where
  len : outputs.len links = outputs'.len links'
  stream : ∀ index,
    (outputs.stream links index).toOption = (outputs'.stream links' index).toOption
  emitAt : ∀ index context payload, (outputs.emitAt links index context payload).toOption =
    (outputs'.emitAt links' index context payload).toOption
  total : ∀ index < outputs.len links, (outputs.stream links index).isOk = true ∧
    ∀ context payload, (outputs.emitAt links index context payload).isOk = true

/-- The two forms of the branches of a case. -/
structure CaseCoincide {B B' : Type} (branches : CaseBranches Ctx T B) (links : B)
    (branches' : CaseBranches Ctx T B') (links' : B') : Prop where
  len : branches.len links = branches'.len links'
  stream : ∀ index, branches.stream links index = branches'.stream links' index
  consumeCase : ∀ index context payload,
    (branches.consumeCase links index context payload).toOption =
      (branches'.consumeCase links' index context payload).toOption
  total : ∀ index < branches.len links, (branches.stream links index).isSome = true ∧
    ∀ context payload, (branches.consumeCase links index context payload).isOk = true

/-- A value that a case selects a branch for reaches that branch. -/
def Selects {B : Type} (branches : CaseBranches Ctx T B) (links : B) (all : List StreamInner) :
    Prop :=
  ∀ (select : T → ℕ) (startSpan : StreamInner → Ctx → Ctx) (context : Ctx) (payload : Payload T)
    (stream : StreamInner), all[select payload.value]? = some stream →
    consumeCase branches select startSpan links context payload =
      .ok (emit stream (startSpan stream context) payload)

theorem isOk_of_toOption {ε α : Type} {x : Except ε α} (h : x.toOption.isSome = true) :
    x.isOk = true := by
  cases x with
  | error e => cases h
  | ok a => rfl

theorem Represents.coincide {B B' : Type} {outputs : SplitOutputs Ctx T B} {links : B}
    {outputs' : SplitOutputs Ctx T B'} {links' : B'} {all : List StreamInner}
    (h : Represents outputs links all) (h' : Represents outputs' links' all) :
    Coincide outputs links outputs' links' where
  len := h.len.trans h'.len.symm
  stream index := (h.stream index).trans (h'.stream index).symm
  emitAt index context payload :=
    (h.emitAt index context payload).trans (h'.emitAt index context payload).symm
  total index hlt := by
    have hindex : index < all.length := h.len ▸ hlt
    have hs : all[index]? = some all[index] := List.getElem?_eq_getElem hindex
    constructor
    · exact isOk_of_toOption (by rw [h.stream, hs]; rfl)
    · intro context payload
      exact isOk_of_toOption (by rw [h.emitAt, hs]; rfl)

theorem CaseRepresents.coincide {B B' : Type} {branches : CaseBranches Ctx T B} {links : B}
    {branches' : CaseBranches Ctx T B'} {links' : B'} {all : List StreamInner}
    (h : CaseRepresents branches links all) (h' : CaseRepresents branches' links' all) :
    CaseCoincide branches links branches' links' where
  len := h.len.trans h'.len.symm
  stream index := (h.stream index).trans (h'.stream index).symm
  consumeCase index context payload :=
    (h.consumeCase index context payload).trans (h'.consumeCase index context payload).symm
  total index hlt := by
    have hindex : index < all.length := h.len ▸ hlt
    have hs : all[index]? = some all[index] := List.getElem?_eq_getElem hindex
    constructor
    · rw [h.stream, hs]
      rfl
    · intro context payload
      exact isOk_of_toOption (by rw [h.consumeCase, hs]; rfl)

theorem CaseRepresents.selects {B : Type} {branches : CaseBranches Ctx T B} {links : B}
    {all : List StreamInner} (h : CaseRepresents branches links all) :
    Selects branches links all := by
  intro select startSpan context payload stream hs
  simp only [FanOut.consumeCase, h.stream, hs]
  exact eq_ok_of_toOption ((h.consumeCase _ _ _).trans (by rw [hs]; rfl))

/-- **Typed and dynamic fan-out.** The nested tuple of collectors and the array, or vector, of their
streams coincide at every index, and below the length no panic is reached. Splits over a tuple and
over any array dispatch once to every branch, the asynchronous ones first, with the value that they
got; cases reach the branch that is selected. -/
theorem fan_out_agrees (Cs : List (Output Ctx T)) (links : Tuple Cs) :
    Coincide (tupleOutputs Cs) links (arrayOutputs Ctx T Cs.length)
      ⟨streams Cs links, length_streams Cs links⟩ ∧
    CaseCoincide (tupleBranches Cs) links (vecBranches Ctx T)
      ((streams Cs links).map WhenStream.mk) ∧
    FansOut (tupleOutputs Cs) links (streams Cs links) ∧
    (∀ (n : ℕ) (array : List.Vector StreamInner n),
      FansOut (arrayOutputs Ctx T n) array array.toList) ∧
    Selects (tupleBranches Cs) links (streams Cs links) ∧
    (∀ all : List StreamInner, Selects (vecBranches Ctx T) (all.map WhenStream.mk) all) := by
  have htuple := tuple_represents Cs links
  have hcase := tuple_caseRepresents Cs links
  refine ⟨htuple.coincide (array_represents _), hcase.coincide (vec_represents _),
    htuple.fansOut, ?_, hcase.selects, ?_⟩
  · intro n array
    exact (array_represents array).fansOut
  · intro all
    exact (vec_represents all).selects

end FanOut

end ServiceLib
