import ServiceLib.Operators.Wiring
import ServiceLib.Store.JoinTimers

/-!
# Joins

Follows `src/operators/join.rs` and `src/operators/multijoin.rs`. The inputs of a join put their
values, without their types, into the slots of a group of the join storage, whose calls, timers and
clock are those of `ServiceLib.Store.JoinStorage`. The callback of a group downcasts the values of
each slot and calls the function of the application; a join does so if its type allows it, and a
multi-join if the first slot has a value.

**Theorem (`join_function_arguments`).** Whenever a callback of a join runs, no downcast panics. The
function is called if and only if the join type, as it is read then, allows it, and gets the values
that each side has put into the group, in order.

**Theorem (`join_completed`).** A group that the function has completed matched: it has values on
the sides that the join type asks for, and gets no more.

**Theorem (`multiJoin_function_arguments`).** The same for every input of a multi-join.

**Theorem (`multiJoin_indices_distinct`).** Two inputs of a multi-join never share a slot.

The idea: a slot only gets values of its own input, so that they have one type; what a callback gets
is what was accepted (`GroupsOk`).
-/

namespace ServiceLib

namespace Join

open JoinStorage

/-! ## Values without their types -/

/-- `Arc<dyn Any + Send + Sync>`. Types are numbered. -/
structure DynValue (Carrier : ℕ → Type) where
  type : ℕ
  value : Carrier type

variable {Carrier : ℕ → Type}

/-- `downcast::<T>()` -/
def DynValue.downcast (T : ℕ) (x : DynValue Carrier) : Option (Carrier T) :=
  if h : x.type = T then some (h ▸ x.value) else none

abbrev JoinValues (Carrier : ℕ → Type) := List (List (DynValue Carrier))

/-- `downcast_values` and `downcast_join_values`. The panic of the `expect` is `none`. -/
def downcastValues (T : ℕ) (values : JoinValues Carrier) (index : ℕ) : Option (List (Carrier T)) :=
  ((values[index]?).getD []).mapM (DynValue.downcast T)

theorem downcast_eq_some {T : ℕ} {x : DynValue Carrier} (h : x.type = T) :
    ∃ value, x.downcast T = some value ∧ (⟨T, value⟩ : DynValue Carrier) = x := by
  subst h
  exact ⟨x.value, by simp [DynValue.downcast], rfl⟩

theorem mapM_downcast {T : ℕ} {values : List (DynValue Carrier)} (h : ∀ x ∈ values, x.type = T) :
    ∃ typed, values.mapM (DynValue.downcast T) = some typed ∧
      typed.map (fun value => (⟨T, value⟩ : DynValue Carrier)) = values := by
  induction values with
  | nil => exact ⟨[], rfl, rfl⟩
  | cons x values ih =>
    obtain ⟨value, hvalue, hx⟩ := downcast_eq_some (h x List.mem_cons_self)
    obtain ⟨typed, htyped, hmap⟩ := ih fun y hy => h y (List.mem_cons_of_mem x hy)
    refine ⟨value :: typed, ?_, ?_⟩
    · rw [List.mapM_cons, hvalue, htyped]
      rfl
    · rw [List.map_cons, hx, hmap]

/-! ## The operators -/

inductive JoinType
  | undefined
  | inner
  | left
  | right
  | outer
  deriving DecidableEq

/-- `values.get(index).is_some_and(|values| !values.is_empty())` -/
def present (values : JoinValues Carrier) (index : ℕ) : Bool :=
  (values[index]?).any fun values => !values.isEmpty

def canCall (joinType : JoinType) (values : JoinValues Carrier) : Bool :=
  match joinType with
  | .inner => present values 0 && present values 1
  | .left => present values 0
  | .right => present values 1
  | .outer => true
  | .undefined => false

/-- `JoinStream::call_function`, up to the call: the arguments of the function, if it is called. -/
def callFunction (L R : ℕ) (joinType : JoinType) (values : JoinValues Carrier) :
    Option (Option (List (Carrier L) × List (Carrier R))) :=
  if canCall joinType values then do
    let left ← downcastValues L values 0
    let right ← downcastValues R values 1
    return some (left, right)
  else some none

/-- An operator over a join storage. -/
structure Operator (Carrier : ℕ → Type) where
  /-- The type of the input that uses a slot. -/
  input : ℕ → Option ℕ
  /-- The function is called with these values, with some configuration. -/
  calls : JoinValues Carrier → Prop

/-- `joinTypes` are those that the configuration has over time. -/
def joinStream (Carrier : ℕ → Type) (L R : ℕ) (joinTypes : JoinType → Prop) :
    Operator Carrier where
  input
    | 0 => some L
    | 1 => some R
    | _ => none
  calls values := ∃ joinType, joinTypes joinType ∧ canCall joinType values = true

/-- `types` are those of the inputs, by their index. -/
def multiJoinStream (Carrier : ℕ → Type) (types : List ℕ) : Operator Carrier where
  input index := types[index]?
  calls values := present values 0 = true

variable {K : Type} {op : Operator Carrier}

/-- The inputs use their own slots, and a group is only completed by the function. -/
def Uses (op : Operator Carrier) (s : State K (DynValue Carrier)) :
    Action K (DynValue Carrier) → Prop
  | .join _ _ _ index value _ _ _ => op.input index = some value.type
  | .invoked c true => ∀ call e values, s.calls c = some call → call.pc = .invoking e values →
      op.calls values
  | _ => True

variable [DecidableEq K] {deadlineOf : ℕ → Option ℕ} {s t : State K (DynValue Carrier)}
  {a : Action K (DynValue Carrier)}

/-! ## Slots have one type -/

/-- The value of a call is of the type of its input. -/
def CallsTyped (op : Operator Carrier) (s : State K (DynValue Carrier)) : Prop :=
  ∀ c call, s.calls c = some call → op.input call.index = some call.value.type

omit [DecidableEq K] in
theorem CallsTyped.setCall (h : CallsTyped op s) {c : ℕ} {call : Call K (DynValue Carrier)}
    (hc : s.calls c = some call) (pc : CallPc (DynValue Carrier))
    (ht : t.calls = Function.update s.calls c (some { call with pc := pc })) : CallsTyped op t := by
  intro c' call' hc'
  rw [ht] at hc'
  by_cases hcc : c' = c
  · subst hcc
    rw [Function.update_self, Option.some.injEq] at hc'
    subst hc'
    exact h c' call hc
  · rw [Function.update_of_ne hcc] at hc'
    exact h c' call' hc'

omit [DecidableEq K] in
theorem CallsTyped.same (h : CallsTyped op s) (ht : t.calls = s.calls) : CallsTyped op t :=
  fun c call hc => h c call (ht ▸ hc)

theorem CallsTyped.steps (h : CallsTyped op s) (hs : Steps deadlineOf s a t)
    (ha : ∀ c context key index value callback configuredTtl renewTtl,
      a ≠ .join c context key index value callback configuredTtl renewTtl) : CallsTyped op t := by
  cases hs with
  | joined call hnew => exact (ha _ _ _ _ _ _ _ _ rfl).elim
  | found e hc _ _ _ => exact h.setCall hc _ rfl
  | created hc _ _ => exact h.setCall hc _ rfl
  | late hc _ _ _ _ => exact h.setCall hc _ rfl
  | @accepted c e call x hc _ _ _ _ =>
    obtain ⟨x', pc, timers, n, heq, -⟩ := accept_eq s c call e x
    rw [heq]
    exact h.setCall hc pc rfl
  | invoked result hc _ _ =>
    cases result
    · exact h.setCall hc _ rfl
    · exact h.setCall hc _ rfl
  | removed hc _ => exact h.setCall hc _ rfl
  | dropped hc _ => exact h.setCall hc _ rfl
  | released hc _ _ => exact h.setCall hc _ rfl
  | expired _ _ _ _ =>
    refine h.same ?_
    unfold JoinStorage.expire
    split_ifs
    · rfl
    · split <;> rfl
    · split <;> rfl
  | _ => exact h.same rfl

theorem CallsTyped.step (h : CallsTyped op s) (hok : Uses op s a)
    (hs : step deadlineOf s a = some t) : CallsTyped op t := by
  cases a with
  | join c context key index value callback configuredTtl renewTtl =>
    simp only [JoinStorage.step] at hs
    split at hs
    · cases hs
      intro c' call' hc'
      change Function.update s.calls c _ c' = some call' at hc'
      by_cases hcc : c' = c
      · subst hcc
        rw [Function.update_self, Option.some.injEq] at hc'
        subst hc'
        exact hok
      · rw [Function.update_of_ne hcc] at hc'
        exact h c' call' hc'
    · cases hs
  | _ => exact h.steps (steps_of_step hs) (by simp)

/-! ## Groups match before they are completed -/

/-- A group that was completed has values that the function is called with. -/
def CompletedOk (op : Operator Carrier) (s : State K (DynValue Carrier)) : Prop :=
  ∀ e c, (e, Terminal.completed c) ∈ s.terminal → op.calls (valuesOf (s.entries e))

/-- Only a call whose callback returns `true` completes a group. -/
theorem completed_of_steps (hs : Steps deadlineOf s a t) {e c : ℕ}
    (hm : (e, Terminal.completed c) ∈ t.terminal) :
    (e, Terminal.completed c) ∈ s.terminal ∨ a = .invoked c true ∧
      ∃ call values, s.calls c = some call ∧ call.pc = .invoking e values := by
  cases hs with
  | @accepted c' e' call x hc _ _ _ _ => exact .inl (terminal_accept s c' call e' x ▸ hm)
  | @invoked c' e' call x values result hc hpc hx =>
    cases result with
    | false => exact .inl hm
    | true =>
      rcases List.mem_append.mp hm with hm | hm
      · exact .inl hm
      · rw [List.mem_singleton, Prod.mk.injEq, Terminal.completed.injEq] at hm
        obtain ⟨rfl, rfl⟩ := hm
        exact .inr ⟨rfl, call, values, hc, hpc⟩
  | @expired i timer x hi hpc hx hfree =>
    unfold JoinStorage.expire at hm
    split_ifs at hm
    · exact .inl hm
    · split at hm
      · exact .inl hm
      · rcases List.mem_append.mp hm with hm | hm
        · exact .inl hm
        · simp at hm
    · split at hm
      · exact .inl hm
      · rcases List.mem_append.mp hm with hm | hm
        · exact .inl hm
        · simp at hm
  | _ => exact .inl hm

/-- `invoke` ends, and the group keeps its values. -/
theorem valuesOf_invoked {c e : ℕ} {result : Bool} {call : Call K (DynValue Carrier)}
    {values : JoinValues Carrier} (hs : Steps deadlineOf s (.invoked c result) t)
    (hc : s.calls c = some call) (hpc : call.pc = .invoking e values) :
    valuesOf (t.entries e) = valuesOf (s.entries e) := by
  cases hs with
  | @invoked _ e' call' x _ _ hc' hpc' hx =>
    rw [hc, Option.some.injEq] at hc'
    subst hc'
    rw [hpc, CallPc.invoking.injEq] at hpc'
    obtain ⟨rfl, -⟩ := hpc'
    rw [hx]
    cases result
    all_goals
      show valuesOf (Function.update s.entries e _ e) = _
      rw [Function.update_self]
      rfl

omit [DecidableEq K] in
theorem processed_of_completed (h : GroupsOk s) {e c : ℕ}
    (hm : (e, Terminal.completed c) ∈ s.terminal) : processedOf (s.entries e) = true := by
  by_contra hp
  have hnil := (h.records.open_iff e).2 (Bool.eq_false_iff.2 hp)
  exact List.ne_nil_of_mem (mem_terminals.2 hm) hnil

theorem CompletedOk.step (h : CompletedOk op s) (hg : GroupsOk s) (hok : Uses op s a)
    (hs : step deadlineOf s a = some t) : CompletedOk op t := by
  intro e c hm
  rcases completed_of_steps (steps_of_step hs) hm with hold | hnew
  · -- The group had ended, and has kept its values since.
    rw [valuesOf_step hg hs (processed_of_completed hg hold)]
    exact h e c hold
  · obtain ⟨rfl, call, values, hc, hpc⟩ := hnew
    have hcalls := hok call e values hc hpc
    obtain ⟨hv, -, -⟩ := hg.invoking c call hc e values hpc
    rw [valuesOf_invoked (steps_of_step hs) hc hpc, ← hv]
    exact hcalls

/-! ## What the function gets -/

/-- The invariant of a join. -/
structure Inv (op : Operator Carrier) (s : State K (DynValue Carrier)) : Prop where
  groups : GroupsOk s
  typed : CallsTyped op s
  completed : CompletedOk op s

theorem inv_reach (h : (system K (DynValue Carrier) deadlineOf).Reach (Uses op) s) :
    Inv op s := by
  refine h.invariant (I := Inv op) ⟨groupsOk_init, ?_, ?_⟩ fun s a t hi hok hs =>
    ⟨hi.groups.step hs, hi.typed.step hok hs, hi.completed.step hi.groups hok hs⟩
  · intro c call hc
    cases hc
  · intro e c hm
    simp [system, State.init] at hm

omit [DecidableEq K] in
/-- What was accepted into a slot is of the type of its input. -/
theorem Inv.slot_type (h : Inv op s) {e index : ℕ} {x : DynValue Carrier}
    (hx : x ∈ slot s.accepted e index) : op.input index = some x.type := by
  obtain ⟨b, hb, rfl⟩ := List.mem_map.mp hx
  simp only [List.mem_filter, decide_eq_true_eq] at hb
  obtain ⟨hmem, -, rfl⟩ := hb
  obtain ⟨call, hc, hindex, hvalue, -⟩ := h.groups.calls.known b hmem
  rw [← hindex, ← hvalue]
  exact h.typed b.call call hc

omit [DecidableEq K] in
theorem Inv.running_slot (h : Inv op s) {e : ℕ} {values : JoinValues Carrier} {r : Callback}
    (hr : Running s e values r) (index : ℕ) :
    (values[index]?).getD [] = slot s.accepted e index := by
  rw [h.groups.running_values hr, ← h.groups.records.slots e index]
  exact (List.getD_eq_getElem?_getD ..).symm

omit [DecidableEq K] in
/-- The downcasts of an input's values do not panic. -/
theorem Inv.downcast (h : Inv op s) {e index T : ℕ} {values : JoinValues Carrier} {r : Callback}
    (hr : Running s e values r) (hT : op.input index = some T) :
    ∃ typed : List (Carrier T), downcastValues T values index = some typed ∧
      typed.map (fun value => (⟨T, value⟩ : DynValue Carrier)) = slot s.accepted e index := by
  unfold downcastValues
  rw [h.running_slot hr]
  refine mapM_downcast fun x hx => ?_
  have htype := h.slot_type hx
  rw [hT, Option.some.injEq] at htype
  exact htype.symm

theorem present_iff {values : JoinValues Carrier} {index : ℕ} :
    present values index = true ↔ (values[index]?).getD [] ≠ [] := by
  unfold present
  cases values[index]? <;> simp

/-- The sides that a join type asks for. -/
def Matches {α β : Type} (joinType : JoinType) (left : List α) (right : List β) : Prop :=
  match joinType with
  | .inner => left ≠ [] ∧ right ≠ []
  | .left => left ≠ []
  | .right => right ≠ []
  | .outer => True
  | .undefined => False

instance {α β : Type} (joinType : JoinType) (left : List α) (right : List β) :
    Decidable (Matches joinType left right) := by
  cases joinType <;> unfold Matches <;> infer_instance

theorem canCall_iff {joinType : JoinType} {values : JoinValues Carrier} :
    canCall joinType values = true ↔
      Matches joinType ((values[0]?).getD []) ((values[1]?).getD []) := by
  cases joinType <;> simp [canCall, Matches, present_iff]

theorem matches_map {α β α' β' : Type} (f : α → α') (g : β → β') {joinType : JoinType}
    {left : List α} {right : List β} :
    Matches joinType (left.map f) (right.map g) ↔ Matches joinType left right := by
  cases joinType <;> simp [Matches]

variable {L R : ℕ} {joinTypes : JoinType → Prop}

/-! ### A run -/

/-- Numbers on both sides, of different types. -/
abbrev Numbers : ℕ → Type := fun _ => ℕ

def left (value : ℕ) : DynValue Numbers := ⟨0, value⟩

def right (value : ℕ) : DynValue Numbers := ⟨1, value⟩

/-- A value on the left, then one on the right, whose callback runs. -/
def matched : List (Action ℕ (DynValue Numbers)) :=
  [.join 0 0 7 0 (left 10) 0 5 false, .lookup 0, .lock 0, .invoked 0 false,
    .join 1 1 7 1 (right 20) 0 5 false, .lookup 1, .lock 1]

theorem matched_runs :
    ((system ℕ (DynValue Numbers) fun _ => none).run .init matched).isSome := by
  decide +kernel

/-- The last state of the run. -/
def matchedState : State ℕ (DynValue Numbers) :=
  ((system ℕ (DynValue Numbers) fun _ => none).run .init matched).get matched_runs

theorem matched_reach (op : Operator Numbers) (h0 : op.input 0 = some 0)
    (h1 : op.input 1 = some 1) :
    (system ℕ (DynValue Numbers) fun _ => none).Reach (Uses op) matchedState := by
  refine System.Reach.run .init (fun a ha s => ?_) (Option.some_get matched_runs).symm
  simp only [matched, List.mem_cons, List.not_mem_nil, or_false] at ha
  rcases ha with rfl | rfl | rfl | rfl | rfl | rfl | rfl
  · exact h0
  · trivial
  · trivial
  · trivial
  · exact h1
  · trivial
  · trivial

theorem matched_running : Running matchedState 0 [[left 10], [right 20]] (.invoke 1) :=
  ⟨_, rfl, rfl⟩

/-- The callback of the second value completes the group. -/
theorem matched_completed (op : Operator Numbers) (h0 : op.input 0 = some 0)
    (h1 : op.input 1 = some 1) (hcalls : op.calls [[left 10], [right 20]]) :
    ∃ t, (system ℕ (DynValue Numbers) fun _ => none).Reach (Uses op) t ∧
      (0, Terminal.completed 1) ∈ t.terminal := by
  refine ⟨_, (matched_reach op h0 h1).step (a := .invoked 1 true) ?_ rfl, List.mem_cons_self⟩
  intro call e values hc hpc
  obtain ⟨call', hc', hpc'⟩ := matched_running
  rw [hc', Option.some.injEq] at hc
  subst hc
  rw [hpc', CallPc.invoking.injEq] at hpc
  obtain ⟨-, rfl⟩ := hpc
  exact hcalls

/-! ### Results -/

/-- **A join function gets what its sides have sent.** In any run, while a callback of a group runs,
with a call or when the group expires, no downcast panics; the function is called if and only if the
join type is matched; and it gets the values that were accepted from each side, in order. -/
theorem join_function_arguments
    (h : (system K (DynValue Carrier) deadlineOf).Reach (Uses (joinStream Carrier L R joinTypes)) s)
    {e : ℕ} {values : JoinValues Carrier} {r : Callback} (hr : Running s e values r)
    (joinType : JoinType) :
    ∃ (left : List (Carrier L)) (right : List (Carrier R)),
      callFunction L R joinType values =
        some (if Matches joinType left right then some (left, right) else none) ∧
      left.map (fun value => (⟨L, value⟩ : DynValue Carrier)) = slot s.accepted e 0 ∧
      right.map (fun value => (⟨R, value⟩ : DynValue Carrier)) = slot s.accepted e 1 ∧
      ∀ index, 2 ≤ index → slot s.accepted e index = [] := by
  have hi := inv_reach h
  have hinputs : (joinStream Carrier L R joinTypes).input 0 = some L ∧
      (joinStream Carrier L R joinTypes).input 1 = some R := ⟨rfl, rfl⟩
  obtain ⟨left, hleft, hl⟩ := hi.downcast hr hinputs.1
  obtain ⟨right, hright, hrt⟩ := hi.downcast hr hinputs.2
  refine ⟨left, right, ?_, hl, hrt, fun index hindex => ?_⟩
  · have hmatch : canCall joinType values = true ↔ Matches joinType left right := by
      rw [canCall_iff, hi.running_slot hr, hi.running_slot hr, ← hl, ← hrt]
      exact matches_map _ _
    unfold callFunction
    by_cases hc : canCall joinType values = true
    · rw [if_pos hc, if_pos (hmatch.mp hc), hleft, hright]
      rfl
    · rw [if_neg hc, if_neg fun hm => hc (hmatch.mpr hm)]
  · obtain ⟨n, rfl⟩ := Nat.exists_eq_add_of_le' hindex
    refine List.eq_nil_iff_forall_not_mem.mpr fun x hx => ?_
    cases hi.slot_type hx

/-- The function of an inner join is called with both values. -/
theorem join_function_arguments_matched :
    ∃ l r : List ℕ,
      callFunction 0 1 .inner [[left 10], [right 20]] =
        some (if Matches .inner l r then some (l, r) else none) ∧
      l.map left = slot matchedState.accepted 0 0 ∧ r.map right = slot matchedState.accepted 0 1 ∧
      ∀ index, 2 ≤ index → slot matchedState.accepted 0 index = [] :=
  join_function_arguments (matched_reach (joinStream Numbers 0 1 fun j => j = .inner) rfl rfl)
    matched_running .inner

/-- **A completed group has matched.** When the function has completed a group, the group has values
on the sides that some join type of the configuration asks for, and no values come after that. -/
theorem join_completed
    (h : (system K (DynValue Carrier) deadlineOf).Reach (Uses (joinStream Carrier L R joinTypes)) s)
    {e c : ℕ} (hm : (e, Terminal.completed c) ∈ s.terminal) :
    (∃ joinType, joinTypes joinType ∧
      Matches joinType (slot s.accepted e 0) (slot s.accepted e 1)) ∧
    ∀ a t, step deadlineOf s a = some t → ∀ index, slot t.accepted e index =
      slot s.accepted e index := by
  have hi := inv_reach h
  refine ⟨?_, fun a t hs index => ?_⟩
  · obtain ⟨joinType, hj, hc⟩ := hi.completed e c hm
    rw [canCall_iff, ← List.getD_eq_getElem?_getD, ← List.getD_eq_getElem?_getD,
      hi.groups.records.slots, hi.groups.records.slots] at hc
    exact ⟨joinType, hj, hc⟩
  · have hp := processed_of_completed hi.groups hm
    rw [← (hi.groups.step hs).records.slots, ← hi.groups.records.slots,
      valuesOf_step hi.groups hs hp]

/-- The inner join of the run. -/
theorem join_completed_matched :
    ∃ t : State ℕ (DynValue Numbers), (0, Terminal.completed 1) ∈ t.terminal ∧
      (∃ joinType, joinType = .inner ∧
        Matches joinType (slot t.accepted 0 0) (slot t.accepted 0 1)) ∧
      ∀ a u, step (fun _ => none) t a = some u → ∀ index, slot u.accepted 0 index =
        slot t.accepted 0 index := by
  obtain ⟨t, ht, hm⟩ := matched_completed (joinStream Numbers 0 1 fun j => j = .inner) rfl rfl
    ⟨.inner, rfl, rfl⟩
  exact ⟨t, hm, join_completed ht hm⟩

/-- **A multi-join function gets what its inputs have sent**, and a group that it completes has a
value of the left input. -/
theorem multiJoin_function_arguments {types : List ℕ}
    (h : (system K (DynValue Carrier) deadlineOf).Reach (Uses (multiJoinStream Carrier types)) s) :
    (∀ e values r, Running s e values r → ∀ (index T : ℕ), types[index]? = some T →
      ∃ typed : List (Carrier T), downcastValues T values index = some typed ∧
        typed.map (fun value => (⟨T, value⟩ : DynValue Carrier)) = slot s.accepted e index) ∧
    (∀ e index, types.length ≤ index → slot s.accepted e index = []) ∧
    ∀ e c, (e, Terminal.completed c) ∈ s.terminal → slot s.accepted e 0 ≠ [] := by
  have hi := inv_reach h
  refine ⟨fun e values r hr index T hT => hi.downcast hr hT, fun e index hindex => ?_,
    fun e c hm => ?_⟩
  · refine List.eq_nil_iff_forall_not_mem.mpr fun x hx => ?_
    have htype := hi.slot_type hx
    rw [show (multiJoinStream Carrier types).input index = types[index]? from rfl,
      List.getElem?_eq_none hindex] at htype
    cases htype
  · have hc := present_iff.mp (hi.completed e c hm)
    rwa [← List.getD_eq_getElem?_getD, hi.groups.records.slots] at hc

/-- The same run, of a multi-join with two inputs. -/
theorem multiJoin_function_arguments_matched :
    (∀ e values r, Running matchedState e values r → ∀ (index T : ℕ), [0, 1][index]? = some T →
      ∃ typed : List (Numbers T), downcastValues T values index = some typed ∧
        typed.map (fun value => (⟨T, value⟩ : DynValue Numbers)) =
          slot matchedState.accepted e index) ∧
    (∀ e index, 2 ≤ index → slot matchedState.accepted e index = []) ∧
    ∀ e c, (e, Terminal.completed c) ∈ matchedState.terminal →
      slot matchedState.accepted e 0 ≠ [] :=
  multiJoin_function_arguments (matched_reach (multiJoinStream Numbers [0, 1]) rfl rfl)

/-! ## The slots of a multi-join -/

section Indices

open Wiring (Graph Call Consumer)

/-- The consumer of a stream. -/
def consumerAt (g : Graph) (stream : ℕ) : Option Consumer :=
  (g.streams stream).downstream.map fun dispatch => dispatch.collector.consumer

/-- At most one stream gets a consumer, and none loses its own. -/
structure Connects (consumer : Consumer) (g g' : Graph) : Prop where
  multiJoins : g'.multiJoins = g.multiJoins
  streams : (∀ stream, consumerAt g' stream = consumerAt g stream) ∨
    ∃ stream, consumerAt g stream = none ∧ consumerAt g' stream = some consumer ∧
      ∀ other, other ≠ stream → consumerAt g' other = consumerAt g other

variable {g g' : Graph} {consumer : Consumer} {stream : ℕ} {targetId : ℤ}

theorem connects_setDownstream (hdown : (g.streams stream).downstream = none)
    (dispatch : Wiring.Dispatch) (hd : dispatch.collector.consumer = consumer) :
    Connects consumer g (g.setDownstream stream dispatch) where
  multiJoins := rfl
  streams := by
    refine .inr ⟨stream, by simp [consumerAt, hdown], ?_, fun other hother => ?_⟩
    · simp [consumerAt, Graph.setDownstream, hd]
    · simp [consumerAt, Graph.setDownstream, Function.update_of_ne hother]

/-- Adding a link to the graph is not connecting. -/
theorem Connects.addLink {fromId toId : ℤ} {typeName : String}
    (h : Connects consumer (g.addLink fromId toId typeName) g') : Connects consumer g g' :=
  ⟨h.multiJoins, h.streams⟩

theorem newLinkCollector_consumer {fromId toId : ℤ} {typeName : String}
    {result : Wiring.LinkCollector × Graph}
    (h : g.newLinkCollector consumer fromId toId typeName = .ok result) :
    result.1.consumer = consumer ∧ result.2 = g.addLink fromId toId typeName := by
  rcases Wiring.newLinkCollector_cases g consumer fromId toId typeName with hcase | hcase
  · obtain ⟨-, error, he⟩ := hcase
    rw [he] at h
    cases h
  · obtain ⟨-, caller, hok⟩ := hcase
    rw [hok] at h
    cases h
    exact ⟨rfl, rfl⟩

theorem connects_trySetConsumer (g : Graph) (stream : ℕ) (consumer : Consumer) (targetId : ℤ) :
    Connects consumer g (g.trySetConsumer stream consumer targetId).1 := by
  unfold Graph.trySetConsumer
  dsimp only
  split
  · exact ⟨rfl, .inl fun _ => rfl⟩
  · rename_i collector g₁ hnew
    obtain ⟨hc, rfl⟩ := newLinkCollector_consumer hnew
    split
    · exact ⟨rfl, .inl fun _ => rfl⟩
    · rename_i hdown
      exact (connects_setDownstream hdown (.dynamic collector) hc).addLink

theorem connects_trySetTypedConsumer (g : Graph) (stream : ℕ) (consumer : Consumer)
    (targetId : ℤ) : Connects consumer g (g.trySetTypedConsumer stream consumer targetId).1 := by
  unfold Graph.trySetTypedConsumer
  dsimp only
  split
  · exact ⟨rfl, .inl fun _ => rfl⟩
  · split
    · exact ⟨rfl, .inl fun _ => rfl⟩
    · rename_i collector g₁ hnew
      obtain ⟨hc, rfl⟩ := newLinkCollector_consumer hnew
      split
      · exact ⟨rfl, .inl fun _ => rfl⟩
      · rename_i hdown
        exact (connects_setDownstream hdown (.typed collector) hc).addLink

theorem connects_setSourceTyped (g : Graph) (operator source : ℕ) :
    ∃ consumer, (∀ m i, consumer ≠ .multiJoinLink m i) ∧
      Connects consumer g (g.setSourceTyped operator source).1 := by
  have hrecord : ∀ consumer targetId name, Connects consumer g
      (Graph.recordSource operator source name
        (g.trySetTypedConsumer source consumer targetId)).1 := by
    intro consumer targetId name
    have h := connects_trySetTypedConsumer g source consumer targetId
    generalize g.trySetTypedConsumer source consumer targetId = result at h
    obtain ⟨g₁, outcome⟩ := result
    cases outcome
    · unfold Graph.recordSource
      dsimp only
      split
      · exact h
      · exact ⟨h.multiJoins, h.streams⟩
    · exact h
    · exact h
  have hnone : Connects (.resultLink operator) g g := ⟨rfl, .inl fun _ => rfl⟩
  unfold Graph.setSourceTyped
  dsimp only
  split
  · exact ⟨_, by simp, hrecord _ _ _⟩
  · split
    · exact ⟨_, by simp, hnone⟩
    · exact ⟨.linkStream operator, by simp, hrecord _ _ _⟩
  · refine ⟨.resultLink operator, by simp, ?_⟩
    split
    · exact hnone
    · split
      · exact hnone
      · split
        · exact hnone
        · split
          · exact hnone
          · exact hrecord _ _ _

/-- The links of multi-joins come from `add_with_collector`, but for the one of the left input. -/
def MakesLeftLinks : Call → Prop
  | .trySetConsumer _ consumer _ | .trySetTypedConsumer _ consumer _ =>
    ∀ m i, consumer = .multiJoinLink m i → i = 0
  | _ => True

/-- The indices that were given to the inputs of a multi-join are below the next one, and belong to
one input each. -/
structure IndicesOk (m : ℕ) (g : Graph) : Prop where
  positive : 0 < (g.multiJoins m).nextIndex
  below : ∀ stream i, consumerAt g stream = some (.multiJoinLink m i) →
    i < (g.multiJoins m).nextIndex
  distinct : ∀ stream other i, i ≠ 0 → consumerAt g stream = some (.multiJoinLink m i) →
    consumerAt g other = some (.multiJoinLink m i) → stream = other

/-- A stream is connected to an index that no input has. -/
theorem IndicesOk.connects {m : ℕ} (h : IndicesOk m g) (hc : Connects consumer g g')
    (hnew : ∀ i, consumer = .multiJoinLink m i → i < (g.multiJoins m).nextIndex ∧
      (i ≠ 0 → ∀ stream, consumerAt g stream ≠ some (.multiJoinLink m i))) : IndicesOk m g' := by
  rcases hc.streams with hsame | hone
  · refine ⟨hc.multiJoins ▸ h.positive, fun stream i hs => ?_, fun stream other i hi hs ho => ?_⟩
    · rw [hc.multiJoins]
      exact h.below stream i (hsame stream ▸ hs)
    · exact h.distinct stream other i hi (hsame stream ▸ hs) (hsame other ▸ ho)
  · obtain ⟨stream₀, -, hstream, hothers⟩ := hone
    have hat : ∀ stream i, consumerAt g' stream = some (.multiJoinLink m i) →
        stream = stream₀ ∧ consumer = .multiJoinLink m i ∨
          stream ≠ stream₀ ∧ consumerAt g stream = some (.multiJoinLink m i) := by
      intro stream i hs
      by_cases hss : stream = stream₀
      · subst hss
        rw [hstream, Option.some.injEq] at hs
        exact .inl ⟨rfl, hs⟩
      · exact .inr ⟨hss, hothers stream hss ▸ hs⟩
    refine ⟨hc.multiJoins ▸ h.positive, fun stream i hs => ?_, fun stream other i hi hs ho => ?_⟩
    · rw [hc.multiJoins]
      rcases hat stream i hs with hs | hs
      · exact (hnew i hs.2).1
      · exact h.below stream i hs.2
    · rcases hat stream i hs with hs | hs
      · rcases hat other i ho with ho | ho
        · rw [hs.1, ho.1]
        · exact absurd ho.2 ((hnew i hs.2).2 hi other)
      · rcases hat other i ho with ho | ho
        · exact absurd hs.2 ((hnew i ho.2).2 hi stream)
        · exact h.distinct stream other i hi hs.2 ho.2

theorem IndicesOk.apply {m : ℕ} (h : IndicesOk m g) {call : Call} (hcall : MakesLeftLinks call)
    (hroom : (g.multiJoins m).nextIndex + 1 < 2 ^ 64) :
    IndicesOk m (g.apply call).1 ∧
      ((g.apply call).1.multiJoins m).nextIndex ≤ (g.multiJoins m).nextIndex + 1 := by
  have hleft : ∀ {consumer : Consumer}, (∀ m i, consumer = .multiJoinLink m i → i = 0) →
      ∀ i, consumer = .multiJoinLink m i → i < (g.multiJoins m).nextIndex ∧
        (i ≠ 0 → ∀ stream, consumerAt g stream ≠ some (.multiJoinLink m i)) := by
    intro consumer hzero i hc
    obtain rfl := hzero m i hc
    exact ⟨h.positive, fun hne => absurd rfl hne⟩
  cases call with
  | trySetConsumer stream consumer targetId =>
    have hc := connects_trySetConsumer g stream consumer targetId
    exact ⟨h.connects hc (hleft hcall), by
      rw [show (g.apply (.trySetConsumer stream consumer targetId)).1.multiJoins = g.multiJoins
        from hc.multiJoins]
      exact Nat.le_succ _⟩
  | trySetTypedConsumer stream consumer targetId =>
    have hc := connects_trySetTypedConsumer g stream consumer targetId
    exact ⟨h.connects hc (hleft hcall), by
      rw [show (g.apply (.trySetTypedConsumer stream consumer targetId)).1.multiJoins =
        g.multiJoins from hc.multiJoins]
      exact Nat.le_succ _⟩
  | setSource operator source =>
    obtain ⟨consumer, hno, hc⟩ := connects_setSourceTyped g operator source
    exact ⟨h.connects hc fun i hi => absurd hi (hno m i), by
      rw [show (g.apply (.setSource operator source)).1.multiJoins = g.multiJoins
        from hc.multiJoins]
      exact Nat.le_succ _⟩
  | add multiJoin source =>
    have hc := connects_trySetTypedConsumer (g.takeIndex multiJoin) source
      (.multiJoinLink multiJoin (g.multiJoins multiJoin).nextIndex)
      (g.streams (g.multiJoins multiJoin).output).id
    have hnext : ((g.takeIndex multiJoin).multiJoins m).nextIndex =
        if m = multiJoin then (g.multiJoins m).nextIndex + 1 else (g.multiJoins m).nextIndex := by
      by_cases hm : m = multiJoin
      · subst hm
        rw [if_pos rfl, Graph.takeIndex]
        dsimp only
        rw [Function.update_self]
        exact Nat.mod_eq_of_lt hroom
      · simp [Graph.takeIndex, hm]
    -- Taking the index alone.
    have htaken : IndicesOk m (g.takeIndex multiJoin) := by
      refine ⟨?_, fun stream i hs => ?_, h.distinct⟩
      · rw [hnext]
        split_ifs
        · exact Nat.succ_pos _
        · exact h.positive
      · have hlt := h.below stream i hs
        rw [hnext]
        split_ifs
        · exact Nat.lt_succ_of_lt hlt
        · exact hlt
    refine ⟨htaken.connects hc fun i hi => ?_, ?_⟩
    · rw [Wiring.Consumer.multiJoinLink.injEq] at hi
      obtain ⟨rfl, rfl⟩ := hi
      rw [hnext, if_pos rfl]
      exact ⟨Nat.lt_succ_self _, fun _ stream hs => (h.below stream _ hs).false⟩
    · show ((g.addWithCollector multiJoin source).1.multiJoins m).nextIndex ≤ _
      rw [show (g.addWithCollector multiJoin source).1.multiJoins =
        (g.takeIndex multiJoin).multiJoins from hc.multiJoins, hnext]
      split_ifs
      · exact le_rfl
      · exact Nat.le_succ _
  | emit stream =>
    have hsame : (g.emit stream).multiJoins = g.multiJoins ∧
        (g.emit stream).streams = g.streams := by
      unfold Graph.emit
      split <;> exact ⟨rfl, rfl⟩
    show IndicesOk m (g.emit stream) ∧ ((g.emit stream).multiJoins m).nextIndex ≤ _
    have hat : ∀ stream', consumerAt (g.emit stream) stream' = consumerAt g stream' :=
      fun stream' => by rw [consumerAt, hsame.2, consumerAt]
    have hc : Connects (.other 0) g (g.emit stream) := ⟨hsame.1, .inl hat⟩
    refine ⟨h.connects hc (by simp), ?_⟩
    rw [hsame.1]
    exact Nat.le_succ _
  | change setting =>
    exact ⟨⟨h.positive, h.below, h.distinct⟩, Nat.le_succ _⟩

/-- **Inputs have their own slots.** After any sequence of wiring calls, fewer than there are
indices, no two streams that were added to a multi-join have the same index. -/
theorem multiJoin_indices_distinct {m : ℕ} {calls : List Call} (h : IndicesOk m g)
    (hcalls : ∀ call ∈ calls, MakesLeftLinks call)
    (hroom : (g.multiJoins m).nextIndex + calls.length < 2 ^ 64) {stream other i : ℕ} (hi : i ≠ 0)
    (hs : consumerAt (g.applyAll calls) stream = some (.multiJoinLink m i))
    (ho : consumerAt (g.applyAll calls) other = some (.multiJoinLink m i)) : stream = other := by
  induction calls generalizing g with
  | nil => exact h.distinct stream other i hi hs ho
  | cons call calls ih =>
    rw [List.length_cons] at hroom
    obtain ⟨hok, hle⟩ := h.apply (hcalls call List.mem_cons_self) (by omega)
    exact ih hok (fun c hc => hcalls c (List.mem_cons_of_mem call hc)) (by omega) hs ho

/-- Streams 6 and 7 are added to the multi-join 8. -/
theorem multiJoin_indices_distinct_added :
    consumerAt (Wiring.plainGraph.applyAll [.add 8 6, .add 8 7]) 7 =
      some (.multiJoinLink 8 2) ∧ ∀ stream,
      consumerAt (Wiring.plainGraph.applyAll [.add 8 6, .add 8 7]) stream =
        some (.multiJoinLink 8 2) → stream = 7 := by
  have h7 : consumerAt (Wiring.plainGraph.applyAll [.add 8 6, .add 8 7]) 7 =
      some (.multiJoinLink 8 2) := rfl
  have hplain : IndicesOk 8 Wiring.plainGraph :=
    ⟨Nat.one_pos, fun stream i hs => by simp [consumerAt, Wiring.plainGraph] at hs,
      fun stream other i hi hs => by simp [consumerAt, Wiring.plainGraph] at hs⟩
  refine ⟨h7, fun stream hs => multiJoin_indices_distinct hplain (fun call hcall => ?_)
    (by decide) (by decide) hs h7⟩
  simp only [List.mem_cons, List.not_mem_nil, or_false] at hcall
  rcases hcall with rfl | rfl <;> trivial

end Indices

end Join

end ServiceLib
