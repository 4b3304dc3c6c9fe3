import ServiceLib.HashMap
import ServiceLib.Transition

/-!
# The join storage

Follows `HashMapJoinStorage` in `src/runtime/store/hashmap.rs`. Values that are joined under one key
collect in an `Entry`, the group of that key, until a callback declares the group complete or the
group expires. Callers find or create the group under the lock of the map, wait for the lock of the
group, and keep that lock while their callback runs; an expiry timer takes the same lock, but runs
its callback after it has released it.

Calls, timers and the clock are one transition system. What happens between two suspension points of
a future is one action: a critical section of the map never suspends, so the lock of the map does not
show, while the lock of a group is held across a callback and does. A callback ends in either result,
or its future is dropped or panics. The fields `accepted` and `terminal` record which values were
accepted into which group, in order, and how groups ended.
-/

namespace ServiceLib

namespace JoinStorage

variable {K V : Type}

/-! ## Data -/

/-- `Entry` with its `Item`. The token in `expiry` is known by the timer it was made for. -/
structure Item (V : Type) where
  values : List (List V)
  processed : Bool
  /-- A `u64` that wraps. -/
  generation : ℕ
  context : ℕ
  callback : ℕ
  expiry : Option ℕ
  deadline : Option ℕ
  /-- The call that holds the lock of `state` across its callback. -/
  lock : Option ℕ

/-- `expired()`. -/
def Item.expired (x : Item V) (now : ℕ) : Bool := x.deadline.any fun deadline => deadline ≤ now

/-- `resize_with(index + 1, Vec::new)` where the slot is missing, and then `push`. -/
def pushAt (values : List (List V)) (index : ℕ) (value : V) : List (List V) :=
  (values ++ List.replicate (index + 1 - values.length) []).modify index (· ++ [value])

inductive CallPc (V : Type)
  /-- About to look up the group of the key. -/
  | lookup
  /-- Waiting for the lock of a group. -/
  | locking (entry : ℕ)
  /-- `invoke` runs, under the lock. -/
  | invoking (entry : ℕ) (values : List (List V))
  /-- About to remove a group from the map; then to try again, or to return. -/
  | removing (entry : ℕ) (retry : Bool)
  | returned
  | dropped
  | panicked

/-- A `join_value_with` call: its arguments and what it has read of the configuration. -/
structure Call (K V : Type) where
  pc : CallPc V
  context : ℕ
  key : K
  index : ℕ
  value : V
  callback : ℕ
  effectiveTtl : ℕ
  renewTtl : Bool

inductive TimerPc (V : Type)
  | sleeping
  /-- Awake, and waiting for the lock of the group. -/
  | locking
  /-- The callback of the group runs. -/
  | calling (callback context : ℕ) (values : List (List V))
  | removing
  | done

/-- The task of `arm_expiry`. -/
structure Timer (K V : Type) where
  pc : TimerPc V
  key : K
  entry : ℕ
  generation : ℕ
  deadline : ℕ
  context : ℕ

/-- A value that was accepted. -/
structure Accepted (V : Type) where
  entry : ℕ
  call : ℕ
  index : ℕ
  value : V

/-- How a group ends: `invoke` returned `true`, or an expiry callback was started. -/
inductive Terminal
  | completed (call : ℕ)
  | expired (timer : ℕ)
  deriving DecidableEq

structure State (K V : Type) where
  items : HashMap K ℕ
  entries : ℕ → Option (Item V)
  nextEntry : ℕ
  calls : ℕ → Option (Call K V)
  timers : ℕ → Option (Timer K V)
  nextTimer : ℕ
  /-- Cancellation tokens of timers. -/
  tokens : ℕ → Bool
  /-- Which contexts are cancelled. -/
  cancelled : ℕ → Bool
  clock : ℕ
  accepted : List (Accepted V)
  terminal : List (ℕ × Terminal)

def State.init : State K V where
  items := ∅
  entries := fun _ => none
  nextEntry := 0
  calls := fun _ => none
  timers := fun _ => none
  nextTimer := 0
  tokens := fun _ => false
  cancelled := fun _ => false
  clock := 0
  accepted := []
  terminal := []

namespace State

def setCall (s : State K V) (c : ℕ) (call : Call K V) (pc : CallPc V) : State K V :=
  { s with calls := Function.update s.calls c (some { call with pc := pc }) }

def setEntry (s : State K V) (e : ℕ) (x : Item V) : State K V :=
  { s with entries := Function.update s.entries e (some x) }

def setTimer (s : State K V) (t : ℕ) (x : Timer K V) : State K V :=
  { s with timers := Function.update s.timers t (some x) }

end State

variable [DecidableEq K]

/-! ## Calls -/

/-- Remove a group from the map if it is the one stored. -/
def removeIfSame (items : HashMap K ℕ) (key : K) (e : ℕ) : HashMap K ℕ :=
  if items.lookup key = some e then items.erase key else items

/-- Find the group of the key, or start a new one in its place. -/
def lookup (s : State K V) (c : ℕ) (call : Call K V) : State K V :=
  match (s.items.lookup call.key).bind fun e => (s.entries e).map fun x => (e, x) with
  | some (e, x) =>
    if x.expired s.clock then create s c call else s.setCall c call (.locking e)
  | none => create s c call
where
  create (s : State K V) (c : ℕ) (call : Call K V) : State K V :=
    let e := s.nextEntry
    let x : Item V := ⟨[], false, 0, call.context, call.callback, none,
      if 0 < call.effectiveTtl then some (s.clock + call.effectiveTtl) else none, none⟩
    let s := { s with nextEntry := e + 1, items := s.items.insert call.key e }
    (s.setEntry e x).setCall c call (.locking e)

/-- Accept the value into a group whose lock was obtained, and start `invoke`. -/
def accept (s : State K V) (c : ℕ) (call : Call K V) (e : ℕ) (x : Item V) : State K V :=
  let values := pushAt x.values call.index call.value
  let record : Accepted V := ⟨e, c, call.index, call.value⟩
  let s := { s with accepted := s.accepted ++ [record] }
  if x.values.isEmpty then
    let x := { x with
      values := values
      generation := (x.generation + 1) % 2 ^ 64
      context := call.context
      callback := call.callback }
    if 0 < call.effectiveTtl then
      let t := s.nextTimer
      let s := { s with nextTimer := t + 1 }
      match x.deadline with
      | some deadline =>
        ((s.setTimer t ⟨.sleeping, call.key, e, x.generation, deadline, call.context⟩).setEntry e
          { x with expiry := some t, lock := some c }).setCall c call (.invoking e values)
      | none =>
        -- `expect("positive TTL has a deadline")`; the unwinding releases the lock
        (s.setEntry e { x with expiry := some t }).setCall c call .panicked
    else (s.setEntry e { x with lock := some c }).setCall c call (.invoking e values)
  else
    (s.setEntry e { x with values := values, lock := some c }).setCall c call (.invoking e values)

/-- `invoke` has returned. -/
def invoked (s : State K V) (c : ℕ) (call : Call K V) (e : ℕ) (x : Item V) (result : Bool) :
    State K V :=
  if result then
    let tokens := match x.expiry with
      | some t => Function.update s.tokens t true
      | none => s.tokens
    let s := { s with tokens := tokens, terminal := s.terminal ++ [(e, Terminal.completed c)] }
    (s.setEntry e { x with processed := true, expiry := none, lock := none }).setCall c call
      (.removing e false)
  else
    (s.setEntry e { x with
      processed := false
      deadline := if call.renewTtl then some (s.clock + call.effectiveTtl) else x.deadline
      lock := none }).setCall c call .returned

/-! ## Timers -/

/-- The sleep of a timer is over: the deadline of its context, if it has one, rules. -/
def due (deadlineOf : ℕ → Option ℕ) (s : State K V) (x : Timer K V) : Bool :=
  match deadlineOf x.context with
  | some deadline => s.cancelled x.context || deadline ≤ s.clock
  | none => x.deadline ≤ s.clock

/-- What a timer does with the lock of its group. -/
def expire (deadlineOf : ℕ → Option ℕ) (s : State K V) (t : ℕ) (timer : Timer K V) (x : Item V) :
    State K V :=
  if x.processed || x.generation ≠ timer.generation then s.setTimer t { timer with pc := .done }
  else
    match (if deadlineOf timer.context = none then x.deadline.filter (s.clock < ·) else none) with
    | some renewed => s.setTimer t { timer with pc := .sleeping, deadline := renewed }
    | none =>
      let s := { s with terminal := s.terminal ++ [(timer.entry, Terminal.expired t)] }
      (s.setEntry timer.entry { x with processed := true, expiry := none }).setTimer t
        { timer with pc := .calling x.callback x.context x.values }

/-! ## The system -/

inductive Action (K V : Type)
  /-- A call is made, and reads the configuration. -/
  | join (c context : ℕ) (key : K) (index : ℕ) (value : V) (callback configuredTtl : ℕ)
      (renewTtl : Bool)
  | lookup (c : ℕ)
  | lock (c : ℕ)
  | invoked (c : ℕ) (result : Bool)
  | remove (c : ℕ)
  /-- A call's future is dropped, or its callback panics. -/
  | drop (c : ℕ)
  /-- A timer finds its token cancelled, or its sleep over. -/
  | wake (t : ℕ)
  | expire (t : ℕ)
  /-- An expiry callback has returned. -/
  | called (t : ℕ)
  /-- An expiry callback panics. -/
  | callPanicked (t : ℕ)
  | evict (t : ℕ)
  | tick (d : ℕ)
  | cancel (context : ℕ)

/-- `deadlineOf` gives the deadlines of message contexts. -/
def step (deadlineOf : ℕ → Option ℕ) (s : State K V) : Action K V → Option (State K V)
  | .join c context key index value callback configuredTtl renewTtl =>
    match s.calls c with
    | none =>
      let effectiveTtl := match deadlineOf context with
        | some deadline => deadline - s.clock
        | none => configuredTtl
      let call : Call K V :=
        ⟨.lookup, context, key, index, value, callback, effectiveTtl, renewTtl⟩
      some (s.setCall c call .lookup)
    | some _ => none
  | .lookup c => do
    let call ← s.calls c
    match call.pc with
    | .lookup => some (JoinStorage.lookup s c call)
    | _ => none
  | .lock c => do
    let call ← s.calls c
    match call.pc with
    | .locking e => do
      let x ← s.entries e
      if x.lock = none then
        if x.processed || x.expired s.clock then some (s.setCall c call (.removing e true))
        else some (accept s c call e x)
      else none
    | _ => none
  | .invoked c result => do
    let call ← s.calls c
    match call.pc with
    | .invoking e _ => do
      let x ← s.entries e
      some (JoinStorage.invoked s c call e x result)
    | _ => none
  | .remove c => do
    let call ← s.calls c
    match call.pc with
    | .removing e retry =>
      some (State.setCall { s with items := removeIfSame s.items call.key e } c call
        (if retry then .lookup else .returned))
    | _ => none
  | .drop c => do
    let call ← s.calls c
    match call.pc with
    | .lookup | .locking _ | .removing _ _ => some (s.setCall c call .dropped)
    | .invoking e _ => do
      let x ← s.entries e
      some ((s.setEntry e { x with lock := none }).setCall c call .dropped)
    | _ => none
  | .wake t => do
    let timer ← s.timers t
    match timer.pc with
    | .sleeping =>
      if s.tokens t then some (s.setTimer t { timer with pc := .done })
      else if due deadlineOf s timer then some (s.setTimer t { timer with pc := .locking })
      else none
    | _ => none
  | .expire t => do
    let timer ← s.timers t
    match timer.pc with
    | .locking => do
      let x ← s.entries timer.entry
      if x.lock = none then some (JoinStorage.expire deadlineOf s t timer x) else none
    | _ => none
  | .called t => do
    let timer ← s.timers t
    match timer.pc with
    | .calling _ _ _ => some (s.setTimer t { timer with pc := .removing })
    | _ => none
  | .callPanicked t => do
    let timer ← s.timers t
    match timer.pc with
    | .calling _ _ _ => some (s.setTimer t { timer with pc := .done })
    | _ => none
  | .evict t => do
    let timer ← s.timers t
    match timer.pc with
    | .removing =>
      some (State.setTimer { s with items := removeIfSame s.items timer.key timer.entry } t
        { timer with pc := .done })
    | _ => none
  | .tick d => some { s with clock := s.clock + d }
  | .cancel context => some { s with cancelled := Function.update s.cancelled context true }

def system (K V : Type) [DecidableEq K] (deadlineOf : ℕ → Option ℕ) :
    System (State K V) (Action K V) where
  init := .init
  step := step deadlineOf

/-! ## What a step does -/

/-- The map holds a group for the key that has not expired. -/
def State.holds (s : State K V) (key : K) : Bool :=
  ((s.items.lookup key).bind s.entries).any fun x => !x.expired s.clock

/-- The cases of `step`, one for each thing that can happen. -/
inductive Steps (deadlineOf : ℕ → Option ℕ) (s : State K V) : Action K V → State K V → Prop
  | joined {c context index callback configuredTtl : ℕ} {key : K} {value : V} {renewTtl : Bool}
      (call : Call K V) (hnew : s.calls c = none) :
      Steps deadlineOf s (.join c context key index value callback configuredTtl renewTtl)
        (s.setCall c call .lookup)
  | found {c : ℕ} {call : Call K V} (e : ℕ) (hc : s.calls c = some call) (hpc : call.pc = .lookup)
      (hholds : s.holds call.key = true) (he : s.items.lookup call.key = some e) :
      Steps deadlineOf s (.lookup c) (s.setCall c call (.locking e))
  | created {c : ℕ} {call : Call K V} (hc : s.calls c = some call) (hpc : call.pc = .lookup)
      (hholds : s.holds call.key = false) :
      Steps deadlineOf s (.lookup c) (lookup.create s c call)
  | late {c e : ℕ} {call : Call K V} {x : Item V} (hc : s.calls c = some call)
      (hpc : call.pc = .locking e) (hx : s.entries e = some x) (hfree : x.lock = none)
      (hend : (x.processed || x.expired s.clock) = true) :
      Steps deadlineOf s (.lock c) (s.setCall c call (.removing e true))
  | accepted {c e : ℕ} {call : Call K V} {x : Item V} (hc : s.calls c = some call)
      (hpc : call.pc = .locking e) (hx : s.entries e = some x) (hfree : x.lock = none)
      (hend : (x.processed || x.expired s.clock) = false) :
      Steps deadlineOf s (.lock c) (accept s c call e x)
  | invoked {c e : ℕ} {call : Call K V} {x : Item V} {values : List (List V)} (result : Bool)
      (hc : s.calls c = some call) (hpc : call.pc = .invoking e values)
      (hx : s.entries e = some x) :
      Steps deadlineOf s (.invoked c result) (JoinStorage.invoked s c call e x result)
  | removed {c e : ℕ} {call : Call K V} {retry : Bool} (hc : s.calls c = some call)
      (hpc : call.pc = .removing e retry) :
      Steps deadlineOf s (.remove c)
        (State.setCall { s with items := removeIfSame s.items call.key e } c call
          (if retry then .lookup else .returned))
  | dropped {c : ℕ} {call : Call K V} (hc : s.calls c = some call)
      (hpc : ∀ e values, call.pc ≠ .invoking e values) :
      Steps deadlineOf s (.drop c) (s.setCall c call .dropped)
  | released {c e : ℕ} {call : Call K V} {x : Item V} {values : List (List V)}
      (hc : s.calls c = some call) (hpc : call.pc = .invoking e values)
      (hx : s.entries e = some x) :
      Steps deadlineOf s (.drop c) ((s.setEntry e { x with lock := none }).setCall c call .dropped)
  | retired {i : ℕ} {timer : Timer K V} (hi : s.timers i = some timer)
      (hpc : timer.pc = .sleeping) (htoken : s.tokens i = true) :
      Steps deadlineOf s (.wake i) (s.setTimer i { timer with pc := .done })
  | woken {i : ℕ} {timer : Timer K V} (hi : s.timers i = some timer) (hpc : timer.pc = .sleeping)
      (hdue : due deadlineOf s timer = true) :
      Steps deadlineOf s (.wake i) (s.setTimer i { timer with pc := .locking })
  | expired {i : ℕ} {timer : Timer K V} {x : Item V} (hi : s.timers i = some timer)
      (hpc : timer.pc = .locking) (hx : s.entries timer.entry = some x) (hfree : x.lock = none) :
      Steps deadlineOf s (.expire i) (JoinStorage.expire deadlineOf s i timer x)
  | called {i callback context : ℕ} {timer : Timer K V} {values : List (List V)}
      (hi : s.timers i = some timer) (hpc : timer.pc = .calling callback context values) :
      Steps deadlineOf s (.called i) (s.setTimer i { timer with pc := .removing })
  | callPanicked {i callback context : ℕ} {timer : Timer K V} {values : List (List V)}
      (hi : s.timers i = some timer) (hpc : timer.pc = .calling callback context values) :
      Steps deadlineOf s (.callPanicked i) (s.setTimer i { timer with pc := .done })
  | evicted {i : ℕ} {timer : Timer K V} (hi : s.timers i = some timer)
      (hpc : timer.pc = .removing) :
      Steps deadlineOf s (.evict i)
        (State.setTimer { s with items := removeIfSame s.items timer.key timer.entry } i
          { timer with pc := .done })
  | ticked (d : ℕ) : Steps deadlineOf s (.tick d) { s with clock := s.clock + d }
  | cancelled (context : ℕ) :
      Steps deadlineOf s (.cancel context)
        { s with cancelled := Function.update s.cancelled context true }

variable {deadlineOf : ℕ → Option ℕ} {s t : State K V}

theorem lookup_steps {c : ℕ} {call : Call K V} (hc : s.calls c = some call)
    (hpc : call.pc = .lookup) : Steps deadlineOf s (.lookup c) (lookup s c call) := by
  unfold lookup
  split
  case h_1 e x hfound =>
    obtain ⟨e', hi, hfound⟩ := Option.bind_eq_some_iff.mp hfound
    obtain ⟨x', hx, heq⟩ := Option.map_eq_some_iff.mp hfound
    cases heq
    have hholds : s.holds call.key = !x.expired s.clock := by
      rw [State.holds, hi, Option.bind_some, hx]
      rfl
    split
    case isTrue hexpired => exact .created hc hpc (by rw [hholds, hexpired]; rfl)
    case isFalse hopen => exact .found e hc hpc (by rw [hholds, Bool.eq_false_iff.mpr hopen]; rfl) hi
  case h_2 hnone =>
    apply Steps.created hc hpc
    rw [State.holds]
    cases hi : s.items.lookup call.key with
    | none => rfl
    | some e =>
      rw [hi, Option.bind_some, Option.map_eq_none_iff] at hnone
      rw [Option.bind_some, hnone]
      rfl

/-- **Inversion of a step.** -/
theorem steps_of_step {a : Action K V} (hs : step deadlineOf s a = some t) :
    Steps deadlineOf s a t := by
  cases a with
  | join c =>
    simp only [step] at hs
    split at hs
    case h_1 hnew =>
      cases hs
      exact .joined _ hnew
    case h_2 => cases hs
  | lookup c =>
    obtain ⟨call, hc, hs⟩ := Option.bind_eq_some_iff.mp hs
    cases hpc : call.pc <;> simp only [hpc, reduceCtorEq, Option.some.injEq] at hs
    subst hs
    exact lookup_steps hc hpc
  | lock c =>
    obtain ⟨call, hc, hs⟩ := Option.bind_eq_some_iff.mp hs
    cases hpc : call.pc <;> simp only [hpc, reduceCtorEq] at hs
    obtain ⟨x, hx, hs⟩ := Option.bind_eq_some_iff.mp hs
    split_ifs at hs with hfree hend
    · cases hs
      exact .late hc hpc hx hfree hend
    · cases hs
      exact .accepted hc hpc hx hfree (Bool.eq_false_iff.mpr hend)
  | invoked c result =>
    obtain ⟨call, hc, hs⟩ := Option.bind_eq_some_iff.mp hs
    cases hpc : call.pc <;> simp only [hpc, reduceCtorEq] at hs
    obtain ⟨x, hx, hs⟩ := Option.bind_eq_some_iff.mp hs
    cases hs
    exact .invoked result hc hpc hx
  | remove c =>
    obtain ⟨call, hc, hs⟩ := Option.bind_eq_some_iff.mp hs
    cases hpc : call.pc <;> simp only [hpc, reduceCtorEq, Option.some.injEq] at hs
    subst hs
    exact .removed hc hpc
  | drop c =>
    obtain ⟨call, hc, hs⟩ := Option.bind_eq_some_iff.mp hs
    cases hpc : call.pc <;> simp only [hpc, reduceCtorEq] at hs
    case invoking e values =>
      obtain ⟨x, hx, hs⟩ := Option.bind_eq_some_iff.mp hs
      cases hs
      exact .released hc hpc hx
    all_goals
      cases hs
      exact .dropped hc (by rw [hpc]; exact nofun)
  | wake i =>
    obtain ⟨timer, hi, hs⟩ := Option.bind_eq_some_iff.mp hs
    cases hpc : timer.pc <;> simp only [hpc, reduceCtorEq] at hs
    split_ifs at hs with htoken hdue
    · cases hs
      exact .retired hi hpc htoken
    · cases hs
      exact .woken hi hpc hdue
  | expire i =>
    obtain ⟨timer, hi, hs⟩ := Option.bind_eq_some_iff.mp hs
    cases hpc : timer.pc <;> simp only [hpc, reduceCtorEq] at hs
    obtain ⟨x, hx, hs⟩ := Option.bind_eq_some_iff.mp hs
    split_ifs at hs with hfree
    cases hs
    exact .expired hi hpc hx hfree
  | called i =>
    obtain ⟨timer, hi, hs⟩ := Option.bind_eq_some_iff.mp hs
    cases hpc : timer.pc <;> simp only [hpc, reduceCtorEq, Option.some.injEq] at hs
    subst hs
    exact .called hi hpc
  | callPanicked i =>
    obtain ⟨timer, hi, hs⟩ := Option.bind_eq_some_iff.mp hs
    cases hpc : timer.pc <;> simp only [hpc, reduceCtorEq, Option.some.injEq] at hs
    subst hs
    exact .callPanicked hi hpc
  | evict i =>
    obtain ⟨timer, hi, hs⟩ := Option.bind_eq_some_iff.mp hs
    cases hpc : timer.pc <;> simp only [hpc, reduceCtorEq, Option.some.injEq] at hs
    subst hs
    exact .evicted hi hpc
  | tick d =>
    cases hs
    exact .ticked d
  | cancel context =>
    cases hs
    exact .cancelled context

end JoinStorage

end ServiceLib
