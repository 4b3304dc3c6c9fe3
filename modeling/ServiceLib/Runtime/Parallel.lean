import Mathlib.Logic.Relation
import ServiceLib.Transition

/-!
# Parallel tasks and their drain

Follows `spawn_parallel` and `drain_parallel` in `src/runtime/environment/mod.rs`, which a link with
parallel call semantics uses (`src/runtime/collector.rs`). A spawn starts the task and stores its
handle in the registry, under the lock of the registry. The drain takes the whole registry and waits
for each of its tasks, until it finds the registry empty.

**Theorem (`drain_parallel_complete`).** No handle is lost: those that were stored are the ones that
the drain has waited for, those it waits for, and those in the registry, in this order. When the
drain has returned, every task whose spawn had returned at the last look at the registry is over,
and so are all the tasks that it has spawned, to any depth.

A task runs its spawns itself, so all of them have returned when it is over. A batch that has been
waited for has therefore put all that it has spawned into the registry before the drain looks again.

Tasks run in any order, start to run before their handle is stored, and may run for ever. A panic in
a task ends the process.
-/

namespace ServiceLib

namespace Parallel

/-! ## Data -/

/-- Where a call of `spawn_parallel` is. -/
inductive SpawnPc
  /-- Waits for the lock of the registry. -/
  | calling
  /-- Has the lock; `tokio::spawn` has started the task. -/
  | locked
  /-- The handle is stored, and the lock is free again. -/
  | pushed
  | returned
  deriving DecidableEq

/-- The handle has been stored. -/
def SpawnPc.stored : SpawnPc → Bool
  | .calling | .locked => false
  | .pushed | .returned => true

inductive TaskPc
  | running
  | completed
  deriving DecidableEq

/-- A call of `spawn_parallel`, by the task `parent` or from outside, with its task. -/
structure Spawn where
  parent : Option ℕ
  pc : SpawnPc
  task : Option TaskPc
  deriving DecidableEq

/-- Where `drain_parallel` is. -/
inductive DrainPc
  | idle
  /-- About to take the registry. -/
  | looking
  | awaiting (tasks : List ℕ)
  /-- The registry was empty. -/
  | returning
  | returned

/-- The handles that the drain has taken and not yet waited for. -/
def DrainPc.tasks : DrainPc → List ℕ
  | .awaiting tasks => tasks
  | .idle | .looking | .returning | .returned => []

/-- A spawn and its task have one number, the place in `spawns`. -/
structure State where
  spawns : List Spawn
  /-- The spawn that has the lock of the registry. -/
  lock : Option ℕ
  parallelTasks : List ℕ
  drain : DrainPc
  /-- All the handles that were stored, and those that the drain has waited for. -/
  stored : List ℕ
  awaited : List ℕ
  /-- The spawns that had returned when the drain last found the registry empty. -/
  seen : ℕ → Bool

def State.init : State where
  spawns := []
  lock := none
  parallelTasks := []
  drain := .idle
  stored := []
  awaited := []
  seen := fun _ => false

def State.set (s : State) (c : ℕ) (x : Spawn) : State := { s with spawns := s.spawns.set c x }

/-! ## The system -/

inductive Action
  /-- `spawn_parallel` is called. -/
  | call (parent : Option ℕ)
  /-- The lock, and `tokio::spawn`. -/
  | lock (c : ℕ)
  /-- `push`, and the end of the critical section. -/
  | push (c : ℕ)
  | return_ (c : ℕ)
  /-- A task is over. -/
  | complete (c : ℕ)
  /-- `drain_parallel` is called. -/
  | drain
  /-- `std::mem::take` -/
  | look
  /-- `task.await` -/
  | await
  /-- The end of a round, or of the drain. -/
  | again
  | drained

def State.isRunning (s : State) (c : ℕ) : Bool :=
  (s.spawns[c]?.bind Spawn.task) == some .running

def State.isCompleted (s : State) (c : ℕ) : Bool :=
  (s.spawns[c]?.bind Spawn.task) == some .completed

def State.hasReturned (s : State) (c : ℕ) : Bool :=
  (s.spawns[c]?.map Spawn.pc) == some .returned

def step (s : State) : Action → Option State
  | .call parent =>
    -- A task calls it while it runs.
    if parent.all s.isRunning then
      some { s with spawns := s.spawns ++ [⟨parent, .calling, none⟩] }
    else none
  | .lock c =>
    match s.spawns[c]? with
    | some x =>
      if x.pc = .calling ∧ s.lock = none then
        some (State.set { s with lock := some c } c { x with pc := .locked, task := some .running })
      else none
    | none => none
  | .push c =>
    match s.spawns[c]? with
    | some x =>
      if x.pc = .locked then
        some (State.set { s with
          lock := none
          parallelTasks := s.parallelTasks ++ [c]
          stored := s.stored ++ [c] } c { x with pc := .pushed })
      else none
    | none => none
  | .return_ c =>
    match s.spawns[c]? with
    | some x => if x.pc = .pushed then some (s.set c { x with pc := .returned }) else none
    | none => none
  | .complete c =>
    match s.spawns[c]? with
    | some x =>
      -- Its spawns are calls of its own: none of them is still in progress.
      if x.task = some .running ∧ ∀ y ∈ s.spawns, y.parent = some c → y.pc = .returned then
        some (s.set c { x with task := some .completed })
      else none
    | none => none
  | .drain =>
    match s.drain with
    | .idle | .returned => some { s with drain := .looking }
    | .looking | .awaiting _ | .returning => none
  | .look =>
    match s.drain, s.lock with
    | .looking, none =>
      if s.parallelTasks.isEmpty then some { s with drain := .returning, seen := s.hasReturned }
      else some { s with drain := .awaiting s.parallelTasks, parallelTasks := [] }
    | _, _ => none
  | .await =>
    match s.drain with
    | .awaiting (c :: tasks) =>
      if s.isCompleted c then
        some { s with drain := .awaiting tasks, awaited := s.awaited ++ [c] }
      else none
    | _ => none
  | .again =>
    match s.drain with
    | .awaiting [] => some { s with drain := .looking }
    | _ => none
  | .drained =>
    match s.drain with
    | .returning => some { s with drain := .returned }
    | _ => none

def system : System State Action := ⟨.init, step⟩

/-! ## The spawning forest -/

/-- The task `c` has called the spawn `d`. -/
def Child (s : State) (c d : ℕ) : Prop :=
  ∃ x, s.spawns[d]? = some x ∧ x.parent = some c

/-- `d` is `c`, or was spawned by it, to any depth. -/
def Descends (s : State) : ℕ → ℕ → Prop := Relation.ReflTransGen (Child s)

/-! ## The invariant -/

variable {s t : State} {a : Action} {c d : ℕ} {x y : Spawn}

structure Inv (s : State) : Prop where
  stored_eq : s.stored = s.awaited ++ s.drain.tasks ++ s.parallelTasks
  /-- The task starts under the lock. -/
  not_started : ∀ (c : ℕ) (x : Spawn), s.spawns[c]? = some x → x.pc = .calling → x.task = none
  /-- A spawn that has got so far has stored its handle. -/
  mem_stored : ∀ (c : ℕ) (x : Spawn), s.spawns[c]? = some x → x.pc.stored = true → c ∈ s.stored
  completed : ∀ c ∈ s.awaited, s.isCompleted c = true
  /-- The spawns of a task that is over have returned. -/
  children : ∀ c d, Child s c d → s.isCompleted c = true → s.hasReturned d = true
  /-- What the drain has seen is over, with all that comes from it. -/
  seen_completed : ∀ c, s.seen c = true → s.isCompleted c = true
  seen_child : ∀ c d, Child s c d → s.seen c = true → s.seen d = true

theorem inv_init : Inv .init where
  stored_eq := rfl
  not_started := fun _ _ hx => by cases hx
  mem_stored := fun _ _ hx => by cases hx
  completed := fun _ hc => by cases hc
  children := fun _ _ hd => by
    obtain ⟨x, hx, -⟩ := hd
    cases hx
  seen_completed := fun _ hc => by cases hc
  seen_child := fun _ _ _ hc => by cases hc

theorem isCompleted_iff : s.isCompleted c = true ↔
    ∃ x, s.spawns[c]? = some x ∧ x.task = some .completed := by
  simp [State.isCompleted, Option.bind_eq_some_iff]

theorem hasReturned_iff : s.hasReturned c = true ↔
    ∃ x, s.spawns[c]? = some x ∧ x.pc = .returned := by
  simp [State.hasReturned]

/-- The spawn after a change of one of them. -/
theorem spawns_set_cases (hc : s.spawns[c]? = some x) (hd : (s.set c y).spawns[d]? = some z) :
    (d = c ∧ z = y) ∨ (d ≠ c ∧ s.spawns[d]? = some z) := by
  have hlt : c < s.spawns.length := (List.getElem?_eq_some_iff.1 hc).1
  unfold State.set at hd
  by_cases hdc : d = c
  · subst hdc
    rw [List.getElem?_set_self hlt] at hd
    exact Or.inl ⟨rfl, (Option.some.inj hd).symm⟩
  · rw [List.getElem?_set_ne (Ne.symm hdc)] at hd
    exact Or.inr ⟨hdc, hd⟩

theorem spawns_set_self (hc : s.spawns[c]? = some x) : (s.set c y).spawns[c]? = some y :=
  List.getElem?_set_self (List.getElem?_eq_some_iff.1 hc).1

theorem spawns_set_of_ne (hd : d ≠ c) : (s.set c y).spawns[d]? = s.spawns[d]? :=
  List.getElem?_set_ne (Ne.symm hd)

theorem isCompleted_set (hc : s.spawns[c]? = some x)
    (htask : x.task = some .completed → y.task = some .completed)
    (h : s.isCompleted d = true) : (s.set c y).isCompleted d = true := by
  obtain ⟨z, hz, hcompleted⟩ := isCompleted_iff.1 h
  refine isCompleted_iff.2 ?_
  by_cases hdc : d = c
  · subst hdc
    rw [hc] at hz
    cases hz
    exact ⟨y, spawns_set_self hc, htask hcompleted⟩
  · exact ⟨z, by rwa [spawns_set_of_ne hdc], hcompleted⟩

theorem Child.of_set (hc : s.spawns[c]? = some x) (hparent : y.parent = x.parent) {p : ℕ}
    (h : Child (s.set c y) p d) : Child s p d := by
  obtain ⟨z, hz, hp⟩ := h
  rcases spawns_set_cases hc hz with ⟨rfl, rfl⟩ | ⟨-, hz⟩
  · exact ⟨x, hc, hparent ▸ hp⟩
  · exact ⟨z, hz, hp⟩

/-- A spawn, or its task, moves on. The spawns of a task that gets over have returned. -/
theorem Inv.setSpawn (h : Inv s) (hc : s.spawns[c]? = some x) (hparent : y.parent = x.parent)
    (htask : x.task = some .completed → y.task = some .completed)
    (hcalling : y.pc = .calling → y.task = none)
    (hstored : y.pc.stored = true → c ∈ s.stored)
    (hreturned : x.pc = .returned → y.pc = .returned)
    (hover : y.task = some .completed → s.isCompleted c = true ∨
      ∀ d, Child s c d → s.hasReturned d = true) : Inv (s.set c y) where
  stored_eq := h.stored_eq
  not_started := fun d z hz hpc => by
    rcases spawns_set_cases hc hz with ⟨rfl, rfl⟩ | ⟨-, hz⟩
    · exact hcalling hpc
    · exact h.not_started d z hz hpc
  mem_stored := fun d z hz hpc => by
    rcases spawns_set_cases hc hz with ⟨rfl, rfl⟩ | ⟨-, hz⟩
    · exact hstored hpc
    · exact h.mem_stored d z hz hpc
  completed := fun d hd => isCompleted_set hc htask (h.completed d hd)
  children := fun p d hd hp => by
    have hchild := hd.of_set hc hparent
    have hold : s.hasReturned d = true := by
      obtain ⟨z, hz, hcompleted⟩ := isCompleted_iff.1 hp
      rcases spawns_set_cases hc hz with ⟨rfl, rfl⟩ | ⟨-, hz⟩
      · rcases hover hcompleted with hp' | hall
        · exact h.children p d hchild hp'
        · exact hall d hchild
      · exact h.children p d hchild (isCompleted_iff.2 ⟨z, hz, hcompleted⟩)
    obtain ⟨z, hz, hpc⟩ := hasReturned_iff.1 hold
    refine hasReturned_iff.2 ?_
    by_cases hdc : d = c
    · subst hdc
      rw [hc] at hz
      cases hz
      exact ⟨y, spawns_set_self hc, hreturned hpc⟩
    · exact ⟨z, by rwa [spawns_set_of_ne hdc], hpc⟩
  seen_completed := fun d hd => isCompleted_set hc htask (h.seen_completed d hd)
  seen_child := fun p d hd hp => h.seen_child p d (hd.of_set hc hparent) hp

/-- A new spawn: its task, if it is one's, still runs, so the drain has not seen it. -/
theorem Inv.call (h : Inv s) (hpc : x.pc = .calling) (htask : x.task = none)
    (hparent : x.parent.all s.isRunning = true) :
    Inv { s with spawns := s.spawns ++ [x] } := by
  have hget : ∀ {d : ℕ} {z : Spawn}, (s.spawns ++ [x])[d]? = some z →
      s.spawns[d]? = some z ∨ z = x := by
    intro d z hz
    rcases lt_or_ge d s.spawns.length with hlt | hge
    · rw [List.getElem?_append_left hlt] at hz
      exact Or.inl hz
    · rw [List.getElem?_append_right hge] at hz
      exact Or.inr (List.mem_singleton.1 (List.mem_of_getElem? hz))
  have hkeep : ∀ {d : ℕ} {z : Spawn}, s.spawns[d]? = some z →
      (s.spawns ++ [x])[d]? = some z := by
    intro d z hz
    rw [List.getElem?_append_left (List.getElem?_eq_some_iff.1 hz).1]
    exact hz
  have hcompleted : ∀ {d}, s.isCompleted d = true →
      State.isCompleted { s with spawns := s.spawns ++ [x] } d = true := by
    intro d hd
    obtain ⟨z, hz, hover⟩ := isCompleted_iff.1 hd
    exact isCompleted_iff.2 ⟨z, hkeep hz, hover⟩
  have hchild : ∀ {p d}, Child { s with spawns := s.spawns ++ [x] } p d →
      Child s p d ∨ s.isRunning p = true := by
    rintro p d ⟨z, hz, hp⟩
    rcases hget hz with hz | rfl
    · exact Or.inl ⟨z, hz, hp⟩
    · rw [hp] at hparent
      exact Or.inr hparent
  have hover : ∀ {p}, s.isRunning p = true → ¬ s.isCompleted p = true := by
    intro p hrun hcompleted
    simp only [State.isRunning, State.isCompleted, beq_iff_eq] at hrun hcompleted
    rw [hrun] at hcompleted
    cases hcompleted
  exact {
    stored_eq := h.stored_eq
    not_started := fun d z hz hcalling => by
      rcases hget hz with hz | rfl
      · exact h.not_started d z hz hcalling
      · exact htask
    mem_stored := fun d z hz hstored => by
      rcases hget hz with hz | rfl
      · exact h.mem_stored d z hz hstored
      · rw [hpc] at hstored
        cases hstored
    completed := fun d hd => hcompleted (h.completed d hd)
    children := fun p d hd hp => by
      have hp' : s.isCompleted p = true := by
        obtain ⟨z, hz, hover⟩ := isCompleted_iff.1 hp
        rcases hget hz with hz | rfl
        · exact isCompleted_iff.2 ⟨z, hz, hover⟩
        · rw [htask] at hover
          cases hover
      rcases hchild hd with hd | hrun
      · obtain ⟨z, hz, hreturned⟩ := hasReturned_iff.1 (h.children p d hd hp')
        exact hasReturned_iff.2 ⟨z, hkeep hz, hreturned⟩
      · exact absurd hp' (hover hrun)
    seen_completed := fun d hd => hcompleted (h.seen_completed d hd)
    seen_child := fun p d hd hp => by
      rcases hchild hd with hd | hrun
      · exact h.seen_child p d hd hp
      · exact absurd (h.seen_completed p hp) (hover hrun) }

/-- The drain finds the registry empty: every handle that was stored has been waited for. -/
theorem Inv.look_empty (h : Inv s) (hdrain : s.drain = .looking) (hempty : s.parallelTasks = []) :
    Inv { s with drain := .returning, seen := s.hasReturned } := by
  have hawaited : s.stored = s.awaited := by
    rw [h.stored_eq, hdrain, hempty]
    simp [DrainPc.tasks]
  have hover : ∀ c, s.hasReturned c = true → s.isCompleted c = true := by
    intro c hc
    obtain ⟨z, hz, hpc⟩ := hasReturned_iff.1 hc
    apply h.completed c
    rw [← hawaited]
    apply h.mem_stored c z hz
    rw [hpc]
    rfl
  exact {
    stored_eq := by simpa [hdrain, DrainPc.tasks] using h.stored_eq
    not_started := h.not_started
    mem_stored := h.mem_stored
    completed := h.completed
    children := h.children
    seen_completed := hover
    seen_child := fun p d hd hp => h.children p d hd (hover p hp) }

/-- The drain moves on, with the same handles in the same order. -/
theorem Inv.moveDrain (h : Inv s) {pc : DrainPc} {awaited parallelTasks : List ℕ}
    (hstored : awaited ++ pc.tasks ++ parallelTasks =
      s.awaited ++ s.drain.tasks ++ s.parallelTasks)
    (hawaited : ∀ c ∈ awaited, s.isCompleted c = true) :
    Inv { s with drain := pc, awaited := awaited, parallelTasks := parallelTasks } where
  stored_eq := h.stored_eq.trans hstored.symm
  not_started := h.not_started
  mem_stored := h.mem_stored
  completed := hawaited
  children := h.children
  seen_completed := h.seen_completed
  seen_child := h.seen_child

/-- The new handle is the last one. -/
theorem Inv.store (h : Inv s) (c : ℕ) (lock : Option ℕ) :
    Inv { s with
      lock := lock
      parallelTasks := s.parallelTasks ++ [c]
      stored := s.stored ++ [c] } where
  stored_eq := by simp only [h.stored_eq, List.append_assoc]
  not_started := h.not_started
  mem_stored := fun d z hz hpc => List.mem_append_left _ (h.mem_stored d z hz hpc)
  completed := h.completed
  children := h.children
  seen_completed := h.seen_completed
  seen_child := h.seen_child

theorem Inv.setLock (h : Inv s) (lock : Option ℕ) : Inv { s with lock := lock } where
  stored_eq := h.stored_eq
  not_started := h.not_started
  mem_stored := h.mem_stored
  completed := h.completed
  children := h.children
  seen_completed := h.seen_completed
  seen_child := h.seen_child

theorem isCompleted_of_task (hc : s.spawns[c]? = some x) (htask : x.task = some .completed) :
    s.isCompleted c = true :=
  isCompleted_iff.2 ⟨x, hc, htask⟩

theorem Inv.step (h : Inv s) (hs : Parallel.step s a = some t) : Inv t := by
  cases a with
  | call parent =>
    simp only [Parallel.step] at hs
    split_ifs at hs with hparent
    cases hs
    exact h.call rfl rfl hparent
  | lock c =>
    simp only [Parallel.step] at hs
    split at hs
    · rename_i x hx
      split_ifs at hs with hpc
      cases hs
      refine (h.setLock (some c)).setSpawn hx rfl (fun htask => ?_) (by simp)
        (by simp [SpawnPc.stored]) (fun hret => ?_) (by simp)
      · rw [h.not_started c x hx hpc.1] at htask
        cases htask
      · rw [hpc.1] at hret
        cases hret
    · cases hs
  | push c =>
    simp only [Parallel.step] at hs
    split at hs
    · rename_i x hx
      split_ifs at hs with hpc
      cases hs
      refine (h.store c none).setSpawn hx rfl id (by simp) (fun _ => ?_) (fun hret => ?_)
        (fun htask => Or.inl (isCompleted_of_task hx htask))
      · exact List.mem_append_right _ (List.mem_singleton_self c)
      · rw [hpc] at hret
        cases hret
    · cases hs
  | return_ c =>
    simp only [Parallel.step] at hs
    split at hs
    · rename_i x hx
      split_ifs at hs with hpc
      cases hs
      refine h.setSpawn hx rfl id (by simp) (fun _ => ?_) (fun _ => rfl)
        (fun htask => Or.inl (isCompleted_of_task hx htask))
      apply h.mem_stored c x hx
      rw [hpc]
      rfl
    · cases hs
  | complete c =>
    simp only [Parallel.step] at hs
    split at hs
    · rename_i x hx
      split_ifs at hs with hcond
      obtain ⟨hrunning, hall⟩ := hcond
      cases hs
      refine h.setSpawn hx rfl (fun _ => rfl) (fun hcalling => ?_) (h.mem_stored c x hx) id
        (fun _ => Or.inr ?_)
      · rw [h.not_started c x hx hcalling] at hrunning
        cases hrunning
      · rintro d ⟨z, hz, hp⟩
        exact hasReturned_iff.2 ⟨z, hz, hall z (List.mem_of_getElem? hz) hp⟩
    · cases hs
  | drain =>
    simp only [Parallel.step] at hs
    split at hs
    case h_1 hd | h_2 hd =>
      cases hs
      exact h.moveDrain (by rw [hd]; rfl) h.completed
    all_goals cases hs
  | look =>
    simp only [Parallel.step] at hs
    split at hs
    · rename_i hd hl
      split_ifs at hs with hempty
      · cases hs
        exact h.look_empty hd (List.isEmpty_iff.1 hempty)
      · cases hs
        exact h.moveDrain (by simp [hd, DrainPc.tasks]) h.completed
    · cases hs
  | await =>
    simp only [Parallel.step] at hs
    split at hs
    · rename_i c tasks hd
      split_ifs at hs with hc
      cases hs
      refine h.moveDrain (by simp [hd, DrainPc.tasks]) fun d hmem => ?_
      rcases List.mem_append.1 hmem with hmem | hmem
      · exact h.completed d hmem
      · rw [List.mem_singleton.1 hmem]
        exact hc
    · cases hs
  | again =>
    simp only [Parallel.step] at hs
    split at hs
    · rename_i hd
      cases hs
      exact h.moveDrain (by rw [hd]; rfl) h.completed
    · cases hs
  | drained =>
    simp only [Parallel.step] at hs
    split at hs
    · rename_i hd
      cases hs
      exact h.moveDrain (by rw [hd]; rfl) h.completed
    · cases hs

theorem inv_reachable (h : system.Reachable s) : Inv s :=
  System.Reachable.invariant inv_init (fun _ _ _ hi hs => hi.step hs) h

/-! ## The drain -/

/-- What the drain has seen includes all that comes from it. -/
theorem Inv.seen_descendant (h : Inv s) (hd : Descends s c d) (hc : s.seen c = true) :
    s.seen d = true := by
  induction hd with
  | refl => exact hc
  | tail _ hchild ih => exact h.seen_child _ _ hchild ih

/-- **The drain waits for every task.** The handles that were stored are those it has waited for,
those it waits for and those in the registry. When it has returned, each task whose spawn had
returned at its last look is over, with all the tasks that come from it. -/
theorem drain_parallel_complete {s : State} (h : system.Reachable s) :
    s.stored = s.awaited ++ s.drain.tasks ++ s.parallelTasks ∧
      (∀ c ∈ s.awaited, s.isCompleted c = true) ∧
      (∀ c, s.hasReturned c = true → c ∈ s.stored) ∧
      (s.drain = .returned → ∀ c, s.seen c = true → ∀ d, Descends s c d →
        s.isCompleted d = true) := by
  have hinv := inv_reachable h
  refine ⟨hinv.stored_eq, hinv.completed, fun c hc => ?_,
    fun _ c hc d hd => hinv.seen_completed d (hinv.seen_descendant hd hc)⟩
  obtain ⟨x, hx, hpc⟩ := hasReturned_iff.1 hc
  apply hinv.mem_stored c x hx
  rw [hpc]
  rfl

/-- A task that spawns another one while the drain waits for it. -/
def nestedRun : List Action :=
  [.call none, .lock 0, .push 0, .return_ 0, .drain, .look, .call (some 0), .lock 1, .push 1,
    .return_ 1, .complete 0, .await, .again, .look, .complete 1, .await, .again, .look, .drained]

theorem nestedRun_runs : (system.run .init nestedRun).isSome := by
  decide +kernel

/-- The drain looks a second time, and waits for the inner task too. -/
theorem drain_waits_for_nested : ∃ s, s.drain = .returned ∧ s.awaited = [0, 1] ∧
    Descends s 0 1 ∧ s.isCompleted 1 = true := by
  have hreach := System.reachable_get (S := system) nestedRun_runs
  have hchild : Descends ((system.run .init nestedRun).get nestedRun_runs) 0 1 :=
    Relation.ReflTransGen.single ⟨⟨some 0, .returned, some .completed⟩, rfl, rfl⟩
  exact ⟨_, rfl, rfl, hchild,
    (drain_parallel_complete hreach).2.2.2 rfl 0 (by decide +kernel) 1 hchild⟩

end Parallel

end ServiceLib
