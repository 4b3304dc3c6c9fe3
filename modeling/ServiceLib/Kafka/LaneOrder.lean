import ServiceLib.Channel
import ServiceLib.Kafka.ConsumeLoop

/-!
# The order in which a Kafka endpoint handles messages

The loop of `ServiceLib.Kafka.ConsumeLoop` passes the messages of all partitions on to lanes, which
handle them side by side. Here a record of what is received, sent into lanes and handled is kept
beside the loop (`recorded`), for every interleaving of the loop, the lanes, the rebalances and
whoever stops or cancels.

**Theorem (`lane_order`).** Under one assignment the messages of a partition are handled in the
order in which they were received, and, as long as there have been fewer than `2 ^ 64` rebalances,
by one lane, so that one handler runs at a time. Over all lanes no message is handled more often
than it was received.

The idea: a lane passes on a prefix of what was sent into it (`Sorted`). A key that was dropped from
the lanes belongs to an assignment that is over, and no later assignment has its generation
(`Unique`).
-/

namespace ServiceLib

namespace ConsumeLoop

open Channel (through)
open Kafka (Config generations granted Fenced)
open Kafka.State (bump)

/-! ## The record -/

structure Record where
  received : List Message
  /-- The keys of the lanes, in the order of their numbers. -/
  keys : List LaneKey
  /-- What was sent into the channel of a lane. -/
  sent : List (ℕ × Message)
  /-- The messages whose handler was called. -/
  handled : List (ℕ × Message)

def Record.init : Record := ⟨[], [], [], []⟩

/-- What an action adds to the record. -/
def record (s : State) (r : Record) : Action → Record
  | .recv message => { r with received := r.received ++ [message] }
  | .checkContext =>
    match s.loop with
    | .checking message generation context =>
      let key : LaneKey := (message.topic, message.partition, generation)
      if s.assignments.isCancelled context || (s.lanes.lookup key).isSome then r
      else { r with keys := r.keys ++ [key] }
    | _ => r
  | .send =>
    match s.loop with
    | .sending message l =>
      match s.tasks l with
      | some x =>
        match x.pc with
        | .ended => r
        | _ => { r with sent := r.sent ++ [(l, message)] }
      | none => r
    | _ => r
  | .laneReceive l =>
    match s.tasks l with
    | some x =>
      match x.queue with
      | message :: _ => { r with handled := r.handled ++ [(l, message)] }
      | [] => r
    | none => r
  | _ => r

/-- The loop with its record. -/
def recorded (cfg : Config) : System (State × Record) Action where
  init := (.init, .init)
  step x a := (step cfg x.1 a).map fun t => (t, record x.1 x.2 a)

/-- Every run of the loop leaves a record. -/
theorem recorded_run {cfg : Config} {s t : State} (r : Record) {actions : List Action}
    (h : (system cfg).run s actions = some t) :
    ∃ r', (recorded cfg).run (s, r) actions = some (t, r') := by
  induction actions generalizing s r with
  | nil =>
    simp only [System.run, Option.some.injEq] at h
    exact ⟨r, h ▸ rfl⟩
  | cons a actions ih =>
    obtain ⟨u, hu, h⟩ := Option.bind_eq_some_iff.mp h
    obtain ⟨r', hr'⟩ := ih (record s r a) h
    refine ⟨r', Option.bind_eq_some_iff.mpr ⟨(u, record s r a), ?_, hr'⟩⟩
    exact Option.map_eq_some_iff.mpr ⟨u, hu, rfl⟩

/-- The messages of a key that are handled. -/
def Record.handledUnder (r : Record) (key : LaneKey) : List Message :=
  (r.handled.filter fun x => r.keys[x.1]? = some key).map fun x => x.2

/-- The messages of a partition that were received. -/
def Record.receivedFor (r : Record) (key : LaneKey) : List Message :=
  r.received.filter fun message => message.topic = key.1 ∧ message.partition = key.2.1

/-! ## Assignments age -/

/-- What happens to partitions, contexts and generations in a step. -/
structure Ages (s t : Kafka.State) : Prop where
  lookup : ∀ p, t.partitions.lookup p = s.partitions.lookup p ∨ t.partitions.lookup p = none ∨
    ∃ c, t.partitions.lookup p = some (bump s.revision, c) ∧
      generations t.history = bump s.revision :: generations s.history
  cancelled : ∀ c, s.isCancelled c = true → t.isCancelled c = true
  held : ∀ p g c, s.partitions.lookup p = some (g, c) →
    t.partitions.lookup p = some (g, c) ∨ t.isCancelled c = true
  used : ∀ g ∈ generations s.history, g ∈ generations t.history

section Ages

variable {s t : Kafka.State}

theorem Ages.of_eq (hp : t.partitions = s.partitions)
    (htokens : ∀ c, s.tokens c = true → t.tokens c = true)
    (howner : s.ownerCancelled = true → t.ownerCancelled = true)
    (hh : generations t.history = generations s.history) : Ages s t where
  lookup p := .inl (by rw [hp])
  cancelled c hc := by
    simp only [Kafka.State.isCancelled, Bool.or_eq_true] at hc ⊢
    exact hc.imp howner (htokens c)
  held p g c hl := .inl (by rw [hp, hl])
  used g hg := hh ▸ hg

/-- Partitions are taken away. -/
theorem Ages.of_taken {gone : ℤ → Prop} (h : Kafka.Taken gone s t)
    (howner : t.ownerCancelled = s.ownerCancelled) : Ages s t where
  lookup p := by
    by_cases hp : gone p
    · exact .inr (.inl (h.removed p hp))
    · exact .inl (h.kept p hp)
  cancelled c hc := by
    simp only [Kafka.State.isCancelled, Bool.or_eq_true, howner] at hc ⊢
    exact hc.imp_right (h.mono c)
  held p g c hl := by
    by_cases hp : gone p
    · refine .inr ?_
      simp only [Kafka.State.isCancelled, h.cancelled p g c hp hl, Bool.or_true]
    · exact .inl (by rw [h.kept p hp, hl])
  used g hg := by rwa [h.history]

/-- What the insertion loop grants is listed. -/
theorem mem_of_grants (s : Kafka.State) (generation : ℕ) (list : List ℤ) {p : ℤ} {c : ℕ}
    (h : (s.insertPartitions generation list).2.lookup p = some c) : p ∈ list := by
  have hloop : ∀ (list : List ℤ) (r : Kafka.State × List (ℤ × ℕ)),
      (list.foldl (Kafka.State.insertPartition generation) r).2.lookup p = some c →
      p ∈ list ∨ r.2.lookup p = some c := by
    intro list
    induction list with
    | nil => exact fun r hr => .inr hr
    | cons q list ih =>
      intro r hr
      rcases ih _ hr with hmem | hlast
      · exact .inl (List.mem_cons_of_mem q hmem)
      · simp only [Kafka.State.insertPartition, List.lookup_cons] at hlast
        by_cases hp : p = q
        · exact .inl (hp ▸ List.mem_cons_self)
        · rw [beq_eq_false_iff_ne.2 hp] at hlast
          exact .inr hlast
  rcases hloop list (s, []) h with hmem | hnil
  · exact hmem
  · cases hnil

/-- What the insertion loop does to partitions that were taken away before. -/
structure Grants (generation : ℕ) (s t : Kafka.State) : Prop where
  lookup : ∀ p, t.partitions.lookup p = s.partitions.lookup p ∨
    ∃ c, t.partitions.lookup p = some (generation, c)
  held : ∀ p g c, s.partitions.lookup p = some (g, c) → t.partitions.lookup p = some (g, c)
  cancelled : ∀ c, t.isCancelled c = s.isCancelled c
  history : t.history = s.history

theorem grants_insertPartitions (s : Kafka.State) (generation : ℕ) (list : List ℤ)
    (hgone : ∀ p ∈ list, s.partitions.lookup p = none) :
    Grants generation s (s.insertPartitions generation list).1 := by
  have hi := Kafka.insertPartitions_inserted s generation list
  have howner := (Kafka.insertPartitions_beside s generation list).ownerCancelled
  refine ⟨fun p => ?_, fun p g c hl => ?_, fun c => ?_, hi.history⟩
  · rw [hi.lookup]
    cases (s.insertPartitions generation list).2.lookup p with
    | none => exact .inl rfl
    | some c => exact .inr ⟨c, rfl⟩
  · rw [hi.lookup]
    cases hp : (s.insertPartitions generation list).2.lookup p with
    | none => exact hl
    | some c' => cases hl.symm.trans (hgone p (mem_of_grants s generation list hp))
  · unfold Kafka.State.isCancelled
    rw [hi.tokens, howner]

theorem Ages.assignLocked (s : Kafka.State) (answers : Kafka.Answers) (list : List Kafka.Item) :
    Ages s (s.assignLocked answers list) := by
  have htaken := Kafka.takeAway_taken s answers.cooperative list
  have haway := Ages.of_taken htaken
    (Kafka.takeAway_beside s answers.cooperative list).ownerCancelled
  unfold Kafka.State.assignLocked
  cases answers.native with
  | error e => exact ⟨haway.lookup, haway.cancelled, haway.held, haway.used⟩
  | ok u =>
    have hgrants := grants_insertPartitions { s.takeAway answers.cooperative list with
      native := (if answers.cooperative then .incrementalAssign list else .assign list) ::
        (s.takeAway answers.cooperative list).native
      revision := bump (s.takeAway answers.cooperative list).revision }
      (bump (s.takeAway answers.cooperative list).revision) (Kafka.State.listed list)
      fun p hp => htaken.removed p (.inr hp)
    dsimp only
    generalize Kafka.State.insertPartitions _ _ _ = r at hgrants
    have hhistory : generations (.assigned (bump (s.takeAway answers.cooperative list).revision)
        (!answers.cooperative) r.2 :: r.1.history) = bump s.revision :: generations s.history := by
      rw [generations, htaken.revision, hgrants.history]
      exact congrArg _ (congrArg generations htaken.history)
    refine ⟨fun p => ?_, fun c hc => ?_, fun p g c hl => ?_, fun g hg => ?_⟩
    · rcases hgrants.lookup p with hsame | ⟨c, hnew⟩
      · rcases haway.lookup p with h | h | ⟨c, -, hgen⟩
        · exact .inl (hsame.trans h)
        · exact .inr (.inl (hsame.trans h))
        · rw [htaken.history] at hgen
          exact absurd (congrArg List.length hgen) (by simp)
      · exact .inr (.inr ⟨c, by rw [hnew, htaken.revision], hhistory⟩)
    · exact (hgrants.cancelled c).trans (haway.cancelled c hc)
    · rcases haway.held p g c hl with hkept | hcancelled
      · exact .inl (hgrants.held p g c hkept)
      · exact .inr ((hgrants.cancelled c).trans hcancelled)
    · exact hhistory ▸ List.mem_cons_of_mem _ hg

theorem Ages.revokeLocked (s : Kafka.State) (answers : Kafka.Answers) (list : List Kafka.Item) :
    Ages s (s.revokeLocked answers list) := by
  have haway : Ages s
      (if answers.cooperative then s.removePartitions (Kafka.State.listed list) else s.clear) := by
    split_ifs
    · exact .of_taken (Kafka.removePartitions_taken s _)
        (Kafka.removePartitions_beside s _).ownerCancelled
    · exact .of_taken (Kafka.clear_taken s) rfl
  unfold Kafka.State.revokeLocked
  cases answers.native with
  | error e => exact ⟨haway.lookup, haway.cancelled, haway.held, haway.used⟩
  | ok u => exact ⟨haway.lookup, haway.cancelled, haway.held, haway.used⟩

theorem ages_step {cfg : Config} {a : Kafka.Action} (hs : Kafka.step cfg s a = some t) :
    Ages s t := by
  unfold Kafka.step at hs
  cases a with
  | assign answers list =>
    cases hc : s.callback <;> simp only [hc, reduceCtorEq] at hs
    split at hs <;> (cases hs; exact .of_eq rfl (fun _ h => h) id rfl)
  | assignLocked =>
    cases hc : s.callback <;> simp only [hc, reduceCtorEq] at hs
    split_ifs at hs <;> cases hs
    · exact .of_eq rfl (fun _ h => h) id rfl
    · exact .assignLocked s _ _
  | revoke answers list =>
    cases hc : s.callback <;> simp only [hc, reduceCtorEq] at hs
    cases hs
    have hages := Ages.revokeLocked
      { s with callback := .idle, rebalances := s.rebalances + 1 } answers list
    exact ⟨hages.lookup, hages.cancelled, hages.held, hages.used⟩
  | fail =>
    cases hc : s.callback <;> simp only [hc, reduceCtorEq] at hs
    cases hs
    exact .of_eq rfl (fun _ h => Kafka.tokens_cancelAll.2 (.inl h)) id rfl
  | other event | failToken | unassign =>
    cases hc : s.callback <;> simp only [hc, reduceCtorEq] at hs
    cases hs
    exact .of_eq rfl (fun _ h => h) id rfl
  | takeError =>
    simp only at hs
    split at hs <;> cases hs
    exact .of_eq rfl (fun _ h => h) id rfl
  | cancelOwner =>
    cases hs
    exact .of_eq rfl (fun _ h => h) (fun _ => rfl) rfl
  | cancelContext context =>
    simp only at hs
    split_ifs at hs
    cases hs
    refine .of_eq rfl (fun c h => ?_) id rfl
    by_cases hc : c = context
    · subst hc
      exact Function.update_self ..
    · exact (Function.update_of_ne hc ..).trans h

end Ages

/-! ## What a step does -/

/-- The message that the loop holds. -/
def Loop.message : Loop → Option Message
  | .received message => some message
  | .retaining message _ _ _ => some message
  | .looking message => some message
  | .checking message _ _ => some message
  | .sending message _ => some message
  | _ => none

@[simp] theorem Loop.message_selecting : Loop.selecting.message = none := rfl

/-- The assignments take a step of their own, or none. -/
def Follows (cfg : Config) (s t : Kafka.State) : Prop :=
  t = s ∨ ∃ a, Kafka.step cfg s a = some t

inductive Moves (cfg : Config) (s : State) (r : Record) : State → Record → Prop
  /-- Lanes and messages stay, but the loop may drop the message that it holds. -/
  | aside {t : State} (hassignments : Follows cfg s.assignments t.assignments)
      (hloop : t.loop = s.loop ∨ t.loop.message = none) (hlanes : t.lanes = s.lanes)
      (htasks : t.tasks = s.tasks) (hnext : t.nextLane = s.nextLane) : Moves cfg s r t r
  | received (message : Message) (hloop : s.loop = .selecting) :
    Moves cfg s r { s with loop := .received message }
      { r with received := r.received ++ [message] }
  | loaded (message : Message) (hloop : s.loop = .received message) :
    Moves cfg s r { s with loop := .looking message } r
  | retaining (message : Message) (order : List (LaneKey × ℕ)) (revision : ℕ)
      (hloop : s.loop = .received message) (horder : order.Perm s.lanes) :
    Moves cfg s r { s with loop := .retaining message [] order revision } r
  | kept (message : Message) (kept todo : List (LaneKey × ℕ)) (key : LaneKey) (l revision : ℕ)
      (hloop : s.loop = .retaining message kept ((key, l) :: todo) revision) :
    Moves cfg s r { s with loop := .retaining message (kept ++ [(key, l)]) todo revision } r
  | dropped (message : Message) (kept todo : List (LaneKey × ℕ)) (key : LaneKey) (l revision : ℕ)
      (hloop : s.loop = .retaining message kept ((key, l) :: todo) revision)
      (hcurrent : s.current key.2.1 key.2.2 = false) :
    Moves cfg s r { s with loop := .retaining message kept todo revision } r
  | retained (message : Message) (kept : List (LaneKey × ℕ)) (revision : ℕ)
      (hloop : s.loop = .retaining message kept [] revision) :
    Moves cfg s r
      { s with lanes := kept, assignmentRevision := revision, loop := .looking message } r
  | got (message : Message) (generation context : ℕ) (hloop : s.loop = .looking message)
      (hlookup : s.assignments.partitions.lookup message.partition = some (generation, context)) :
    Moves cfg s r { s with loop := .checking message generation context } r
  | entered (message : Message) (generation context l : ℕ)
      (hloop : s.loop = .checking message generation context)
      (hlookup : s.lanes.lookup (message.topic, message.partition, generation) = some l) :
    Moves cfg s r { s with loop := .sending message l } r
  | opened (message : Message) (generation context : ℕ)
      (hloop : s.loop = .checking message generation context)
      (hcancelled : s.assignments.isCancelled context = false)
      (hlookup : s.lanes.lookup (message.topic, message.partition, generation) = none) :
    Moves cfg s r
      (State.setTask { s with
        nextLane := s.nextLane + 1
        lanes := s.lanes ++ [((message.topic, message.partition, generation), s.nextLane)]
        loop := .sending message s.nextLane } s.nextLane ⟨.receiving, context, []⟩)
      { r with keys := r.keys ++ [(message.topic, message.partition, generation)] }
  | sent (message : Message) (l : ℕ) (x : Lane) (hloop : s.loop = .sending message l)
      (hx : s.tasks l = some x) :
    Moves cfg s r
      (State.setTask { s with loop := .selecting } l { x with queue := x.queue ++ [message] })
      { r with sent := r.sent ++ [(l, message)] }
  | lane (l : ℕ) (x : Lane) (pc : LanePc) (hx : s.tasks l = some x) :
    Moves cfg s r (s.setTask l { x with pc := pc }) r
  | handled (l : ℕ) (x : Lane) (message : Message) (queue : List Message)
      (hx : s.tasks l = some x) (hqueue : x.queue = message :: queue) :
    Moves cfg s r (s.setTask l { x with pc := .handling message, queue := queue })
      { r with handled := r.handled ++ [(l, message)] }

section Moves

variable {cfg : Config} {s t : State} {r r' : Record} {a : Action} {message : Message} {l : ℕ}
  {x : Lane}

/-- A lane that is over has dropped its receiver. -/
theorem record_send_ended (hloop : s.loop = .sending message l) (hx : s.tasks l = some x)
    (hpc : x.pc = .ended) : record s r .send = r := by
  simp only [record, hloop, hx, hpc]

theorem record_send (hloop : s.loop = .sending message l) (hx : s.tasks l = some x)
    (hpc : x.pc ≠ .ended) :
    record s r .send = { r with sent := r.sent ++ [(l, message)] } := by
  obtain ⟨pc, context, queue⟩ := x
  cases pc with
  | ended => exact absurd rfl hpc
  | receiving => simp only [record, hloop, hx]
  | handling handled => simp only [record, hloop, hx]

theorem moves (h : step cfg s a = some t) (r : Record) : Moves cfg s r t (record s r a) := by
  cases a with
  | assignments a =>
    cases a with
    | takeError => cases h
    | _ =>
      simp only [ConsumeLoop.step] at h
      obtain ⟨x, hx, rfl⟩ := Option.map_eq_some_iff.mp h
      exact .aside (.inr ⟨_, hx⟩) (.inl rfl) rfl rfl rfl
  | stop =>
    cases h
    exact .aside (.inl rfl) (.inl rfl) rfl rfl rfl
  | seeStop =>
    simp only [ConsumeLoop.step] at h
    split at h
    · split_ifs at h
      cases h
      exact .aside (.inl rfl) (.inr rfl) rfl rfl rfl
    · cases h
  | seeCancelled =>
    simp only [ConsumeLoop.step] at h
    split at h
    · split_ifs at h
      cases h
      exact .aside (.inl rfl) (.inr rfl) rfl rfl rfl
    · cases h
  | seeFailed =>
    simp only [ConsumeLoop.step] at h
    split at h
    · split_ifs at h
      cases h
      exact .aside (.inl rfl) (.inr rfl) rfl rfl rfl
    · cases h
  | takeError =>
    simp only [ConsumeLoop.step] at h
    split at h
    · split at h
      · obtain ⟨x, hx, rfl⟩ := Option.map_eq_some_iff.mp h
        exact .aside (.inr ⟨_, hx⟩) (.inr rfl) rfl rfl rfl
      · cases h
        exact .aside (.inr ⟨.cancelOwner, rfl⟩) (.inr rfl) rfl rfl rfl
    · cases h
  | recv message =>
    simp only [ConsumeLoop.step] at h
    split at h
    · rename_i hloop
      cases h
      exact .received message hloop
    · cases h
  | recvError error offsets =>
    simp only [ConsumeLoop.step] at h
    split at h
    · split_ifs at h
      · cases h
        exact .aside (.inr ⟨.cancelOwner, rfl⟩) (.inr rfl) rfl rfl rfl
      · cases h
        exact .aside (.inl rfl) (.inl rfl) rfl rfl rfl
      · cases h
        exact .aside (.inl rfl) (.inr rfl) rfl rfl rfl
      · cases h
        exact .aside (.inl rfl) (.inr rfl) rfl rfl rfl
    · cases h
  | reported =>
    simp only [ConsumeLoop.step] at h
    split at h
    · split at h
      · cases h
        exact .aside (.inr ⟨.cancelOwner, rfl⟩) (.inr rfl) rfl rfl rfl
      · cases h
        exact .aside (.inl rfl) (.inr rfl) rfl rfl rfl
    · cases h
  | loadRevision order =>
    simp only [ConsumeLoop.step] at h
    split at h
    · rename_i message hloop
      split_ifs at h with hrevision horder
      · cases h
        exact .retaining message order _ hloop horder
      · cases h
        exact .loaded message hloop
    · cases h
  | retain =>
    simp only [ConsumeLoop.step] at h
    split at h
    · rename_i message kept revision hloop
      cases h
      exact .retained message kept revision hloop
    · rename_i message kept topic partition generation l todo revision hloop
      cases h
      cases hcurrent : s.current partition generation with
      | true => exact .kept message kept todo (topic, partition, generation) l revision hloop
      | false =>
        exact .dropped message kept todo (topic, partition, generation) l revision hloop hcurrent
    · cases h
  | get =>
    simp only [ConsumeLoop.step] at h
    split at h
    · rename_i message hloop
      split at h
      · rename_i generation context hlookup
        cases h
        exact .got message generation context hloop hlookup
      · cases h
        exact .aside (.inl rfl) (.inr rfl) rfl rfl rfl
    · cases h
  | checkContext =>
    simp only [ConsumeLoop.step] at h
    split at h
    · rename_i message generation context hloop
      simp only [record, hloop]
      cases hcancelled : s.assignments.isCancelled context with
      | true =>
        rw [hcancelled] at h
        cases h
        exact .aside (.inl rfl) (.inr rfl) rfl rfl rfl
      | false =>
        rw [hcancelled] at h
        cases h
        unfold State.enterLane
        dsimp only
        cases hlookup : s.lanes.lookup (message.topic, message.partition, generation) with
        | none => exact .opened message generation context hloop hcancelled hlookup
        | some l => exact .entered message generation context l hloop hlookup
    · cases h
  | send =>
    simp only [ConsumeLoop.step] at h
    split at h
    · rename_i message l hloop
      obtain ⟨x, hx, h⟩ := Option.bind_eq_some_iff.mp h
      split at h
      · rename_i hpc
        cases h
        rw [record_send_ended hloop hx hpc]
        exact .aside (.inl rfl) (.inr rfl) rfl rfl rfl
      · rename_i hpc
        split_ifs at h
        cases h
        rw [record_send hloop hx hpc]
        exact .sent message l x hloop hx
    · cases h
  | sendStopped =>
    simp only [ConsumeLoop.step] at h
    split at h
    · split_ifs at h
      cases h
      exact .aside (.inl rfl) (.inr rfl) rfl rfl rfl
    · cases h
  | sendCancelled =>
    simp only [ConsumeLoop.step] at h
    split at h
    · split_ifs at h
      cases h
      exact .aside (.inl rfl) (.inr rfl) rfl rfl rfl
    · cases h
  | laneCancelled l =>
    obtain ⟨x, hx, h⟩ := Option.bind_eq_some_iff.mp h
    split at h
    · split_ifs at h
      cases h
      exact .lane l x _ hx
    · cases h
  | laneReceive l =>
    obtain ⟨x, hx, h⟩ := Option.bind_eq_some_iff.mp h
    split at h
    · rename_i message queue hpc hqueue
      cases h
      simp only [record, hx, hqueue]
      exact .handled l x message queue hx hqueue
    · cases h
  | laneClosed l =>
    obtain ⟨x, hx, h⟩ := Option.bind_eq_some_iff.mp h
    split at h
    · cases h
      exact .lane l x _ hx
    · split_ifs at h
      cases h
      exact .lane l x _ hx
    · cases h
  | laneHandled l =>
    obtain ⟨x, hx, h⟩ := Option.bind_eq_some_iff.mp h
    split at h
    · cases h
      exact .lane l x _ hx
    · cases h
  | lanePanicked l =>
    obtain ⟨x, hx, h⟩ := Option.bind_eq_some_iff.mp h
    split at h
    · cases h
      exact .lane l x _ hx
    · cases h

theorem Moves.follows (h : Moves cfg s r t r') : Follows cfg s.assignments t.assignments := by
  cases h with
  | aside hassignments _ _ _ _ => exact hassignments
  | _ => exact .inl rfl

end Moves

/-! ## Messages keep their order -/

/-- What waits in the channel of a lane. -/
def State.queue (s : State) (l : ℕ) : List Message := ((s.tasks l).map Lane.queue).getD []

structure Sorted (s : State) (r : Record) : Prop where
  count : r.keys.length = s.nextLane
  known : ∀ l x, s.tasks l = some x → l < s.nextLane
  numbered : ∀ l message, (l, message) ∈ r.sent →
    ∃ generation, r.keys[l]? = some (message.topic, message.partition, generation)
  /-- A lane has handled what was sent into it, up to what waits. -/
  passed : ∀ l, through l r.sent = through l r.handled ++ s.queue l
  /-- The loop sends what it has received, in order. -/
  order : ((r.sent.map fun x => x.2) ++ s.loop.message.toList).Sublist r.received
  lanes : ∀ key l, (key, l) ∈ s.lanes → r.keys[l]? = some key
  retaining : ∀ message kept todo revision, s.loop = .retaining message kept todo revision →
    ∀ x ∈ kept ++ todo, x ∈ s.lanes
  target : ∀ message l, s.loop = .sending message l →
    ∃ generation, r.keys[l]? = some (message.topic, message.partition, generation)

theorem mem_of_lookup {lanes : List (LaneKey × ℕ)} {key : LaneKey} {l : ℕ}
    (h : lanes.lookup key = some l) : (key, l) ∈ lanes := by
  obtain ⟨before, after, rfl, -⟩ := List.lookup_eq_some_iff.mp h
  exact List.mem_append_right before List.mem_cons_self

section Sorted

variable {cfg : Config} {s t : State} {r r' : Record} {a : Action}

theorem State.queue_setTask (s : State) (l l' : ℕ) (x : Lane) :
    (s.setTask l x).queue l' = if l' = l then x.queue else s.queue l' := by
  show ((Function.update s.tasks l (some x) l').map Lane.queue).getD [] = _
  by_cases hl : l' = l
  · subst hl
    rw [if_pos rfl, Function.update_self]
    rfl
  · rw [if_neg hl, Function.update_of_ne hl]
    rfl

theorem State.queue_of_some {l : ℕ} {x : Lane} (hx : s.tasks l = some x) :
    s.queue l = x.queue := by
  unfold State.queue
  rw [hx]
  rfl

/-- Lanes and messages stay, and the loop moves. -/
theorem Sorted.move (h : Sorted s r) (hlanes : ∀ x ∈ t.lanes, x ∈ s.lanes)
    (htasks : t.tasks = s.tasks) (hnext : t.nextLane = s.nextLane)
    (hmessage : t.loop.message.toList.Sublist s.loop.message.toList)
    (hretaining : ∀ message kept todo revision, t.loop = .retaining message kept todo revision →
      ∀ x ∈ kept ++ todo, x ∈ t.lanes)
    (htarget : ∀ message l, t.loop = .sending message l →
      ∃ generation, r.keys[l]? = some (message.topic, message.partition, generation)) :
    Sorted t r where
  count := h.count.trans hnext.symm
  known l x hx := hnext ▸ h.known l x (htasks ▸ hx)
  numbered := h.numbered
  passed l := by
    rw [h.passed l, State.queue, State.queue, htasks]
  order := ((List.Sublist.refl _).append hmessage).trans h.order
  lanes key l hmem := h.lanes key l (hlanes _ hmem)
  retaining := hretaining
  target := htarget

/-- A lane is changed, but for its queue. -/
theorem Sorted.setTask (h : Sorted s r) {l : ℕ} {x : Lane} (hx : s.tasks l = some x) (pc : LanePc) :
    Sorted (s.setTask l { x with pc := pc }) r where
  count := h.count
  known l' x' hx' := by
    by_cases hl : l' = l
    · exact hl ▸ h.known l x hx
    · exact h.known l' x' ((Function.update_of_ne hl ..).symm.trans hx')
  numbered := h.numbered
  passed l' := by
    rw [h.passed l', State.queue_setTask]
    split_ifs with hl
    · rw [hl, s.queue_of_some hx]
    · rfl
  order := h.order
  lanes := h.lanes
  retaining := h.retaining
  target := h.target

theorem Sorted.step (h : Sorted s r) (hm : Moves cfg s r t r') : Sorted t r' := by
  cases hm with
  | aside _ hloop hlanes htasks hnext =>
    refine h.move (fun x hx => hlanes ▸ hx) htasks hnext ?_ ?_ ?_
    · rcases hloop with hloop | hloop
      · rw [hloop]
      · rw [hloop]
        exact List.nil_sublist _
    · intro message kept todo revision hr
      rcases hloop with hloop | hloop
      · rw [hlanes]
        exact h.retaining message kept todo revision (hloop ▸ hr)
      · rw [hr] at hloop
        cases hloop
    · intro message l hs
      rcases hloop with hloop | hloop
      · exact h.target message l (hloop ▸ hs)
      · rw [hs] at hloop
        cases hloop
  | received message hloop =>
    have horder := h.order
    rw [hloop] at horder
    refine ⟨h.count, h.known, h.numbered, h.passed, ?_, h.lanes, fun _ _ _ _ hr => ?_,
      fun _ _ hs => ?_⟩
    · rw [Loop.message_selecting, Option.toList_none, List.append_nil] at horder
      exact horder.append (List.Sublist.refl [message])
    · cases hr
    · cases hs
  | loaded message hloop =>
    refine h.move (fun x hx => hx) rfl rfl (by rw [hloop]; exact List.Sublist.refl _)
      (fun _ _ _ _ hr => ?_) fun _ _ hs => ?_
    · cases hr
    · cases hs
  | retaining message order revision hloop horder =>
    refine h.move (fun x hx => hx) rfl rfl (by rw [hloop]; exact List.Sublist.refl _)
      (fun _ _ _ _ hr => ?_) fun _ _ hs => ?_
    · cases hr
      exact fun x hx => horder.mem_iff.mp hx
    · cases hs
  | kept message kept todo key l revision hloop =>
    refine h.move (fun x hx => hx) rfl rfl (by rw [hloop]; exact List.Sublist.refl _)
      (fun _ _ _ _ hr => ?_) fun _ _ hs => ?_
    · cases hr
      intro x hx
      rw [List.append_assoc] at hx
      exact h.retaining message kept _ revision hloop x hx
    · cases hs
  | dropped message kept todo key l revision hloop hcurrent =>
    refine h.move (fun x hx => hx) rfl rfl (by rw [hloop]; exact List.Sublist.refl _)
      (fun _ _ _ _ hr => ?_) fun _ _ hs => ?_
    · cases hr
      intro x hx
      apply h.retaining message kept _ revision hloop x
      rw [List.mem_append] at hx ⊢
      exact hx.imp_right (List.mem_cons_of_mem _)
    · cases hs
  | retained message kept revision hloop =>
    refine h.move (fun x hx => ?_) rfl rfl (by rw [hloop]; exact List.Sublist.refl _)
      (fun _ _ _ _ hr => ?_) fun _ _ hs => ?_
    · exact h.retaining message kept [] revision hloop x (List.mem_append_left [] hx)
    · cases hr
    · cases hs
  | got message generation context hloop hlookup =>
    refine h.move (fun x hx => hx) rfl rfl (by rw [hloop]; exact List.Sublist.refl _)
      (fun _ _ _ _ hr => ?_) fun _ _ hs => ?_
    · cases hr
    · cases hs
  | entered message generation context l hloop hlookup =>
    refine h.move (fun x hx => hx) rfl rfl (by rw [hloop]; exact List.Sublist.refl _)
      (fun _ _ _ _ hr => ?_) fun _ _ hs => ?_
    · cases hr
    · cases hs
      exact ⟨generation, h.lanes _ l (mem_of_lookup hlookup)⟩
  | opened message generation context hloop hcancelled hlookup =>
    have hkey : (r.keys ++ [(message.topic, message.partition, generation)])[s.nextLane]? =
        some (message.topic, message.partition, generation) := by
      rw [← h.count, List.getElem?_concat_length]
    have hold : ∀ {l : ℕ} {key : LaneKey}, r.keys[l]? = some key →
        (r.keys ++ [(message.topic, message.partition, generation)])[l]? = some key := by
      intro l key hl
      rw [List.getElem?_append_left (List.getElem?_eq_some_iff.mp hl).1, hl]
    have hnone : s.tasks s.nextLane = none := by
      by_contra hsome
      obtain ⟨x, hx⟩ := Option.ne_none_iff_exists'.mp hsome
      exact (h.known _ x hx).false
    refine ⟨?_, fun l x hx => ?_, fun l m hm => ?_, fun l => ?_, ?_, fun key l hl => ?_,
      fun _ _ _ _ hr => ?_, fun _ _ hs => ?_⟩
    · rw [List.length_append, h.count]
      rfl
    · show l < s.nextLane + 1
      by_cases hl : l = s.nextLane
      · omega
      · exact Nat.lt_succ_of_lt (h.known l x ((Function.update_of_ne hl ..).symm.trans hx))
    · obtain ⟨g, hg⟩ := h.numbered l m hm
      exact ⟨g, hold hg⟩
    · rw [State.queue_setTask, h.passed l]
      split_ifs with hl
      · subst hl
        show _ ++ s.queue s.nextLane = _
        unfold State.queue
        rw [hnone]
        rfl
      · rfl
    · have horder := h.order
      rwa [hloop] at horder
    · rcases List.mem_append.mp hl with hl | hl
      · exact hold (h.lanes key l hl)
      · cases List.mem_singleton.mp hl
        exact hkey
    · cases hr
    · cases hs
      exact ⟨generation, hkey⟩
  | sent message l x hloop hx =>
    obtain ⟨generation, hkey⟩ := h.target message l hloop
    refine ⟨h.count, fun l' x' hx' => ?_, fun l' m hm => ?_, fun l' => ?_, ?_, h.lanes,
      fun _ _ _ _ hr => ?_, fun _ _ hs => ?_⟩
    · by_cases hl : l' = l
      · exact hl ▸ h.known l x hx
      · exact h.known l' x' ((Function.update_of_ne hl ..).symm.trans hx')
    · rcases List.mem_append.mp hm with hm | hm
      · exact h.numbered l' m hm
      · cases List.mem_singleton.mp hm
        exact ⟨generation, hkey⟩
    · rw [Channel.through_append, State.queue_setTask, h.passed l']
      split_ifs with hl
      · subst hl
        rw [Channel.through_self, s.queue_of_some hx, List.append_assoc]
      · rw [Channel.through_of_ne (Ne.symm hl), List.append_nil]
        rfl
    · have horder := h.order
      rw [hloop] at horder
      show ((r.sent ++ [(l, message)]).map (fun x : ℕ × Message => x.2) ++ []).Sublist r.received
      rw [List.append_nil, List.map_append]
      exact horder
    · cases hr
    · cases hs
  | lane l x pc hx => exact h.setTask hx pc
  | handled l x message queue hx hqueue =>
    refine ⟨h.count, fun l' x' hx' => ?_, h.numbered, fun l' => ?_, h.order, h.lanes, h.retaining,
      h.target⟩
    · by_cases hl : l' = l
      · exact hl ▸ h.known l x hx
      · exact h.known l' x' ((Function.update_of_ne hl ..).symm.trans hx')
    · rw [Channel.through_append, State.queue_setTask, h.passed l']
      split_ifs with hl
      · subst hl
        rw [Channel.through_self, s.queue_of_some hx, hqueue, List.append_assoc]
        rfl
      · rw [Channel.through_of_ne (Ne.symm hl), List.append_nil]

theorem sorted (h : (recorded cfg).Reachable (s, r)) : Sorted s r := by
  refine h.invariant (I := fun x => Sorted x.1 x.2) ?_ fun x a y hx hy => ?_
  · refine ⟨rfl, fun l x hx => ?_, fun l message hm => ?_, fun l => rfl, List.Sublist.refl _,
      fun key l hm => ?_, fun message kept todo revision hr => ?_, fun message l hs => ?_⟩
    · cases hx
    · cases hm
    · cases hm
    · cases hr
    · cases hs
  · obtain ⟨t, ht, rfl⟩ := Option.map_eq_some_iff.mp hy
    exact hx.step (moves ht x.2)

end Sorted

/-! ## Lanes keep to their assignment -/

/-- The lanes that the loop still knows, and their keys. -/
def State.table (s : State) : List (LaneKey × ℕ) :=
  match s.loop with
  | .retaining _ kept todo _ => kept ++ todo
  | _ => s.lanes

/-- No two lanes have one key: a key that the loop has dropped never becomes current again. -/
structure Unique (s : State) (r : Record) : Prop where
  nodup : r.keys.Nodup
  retired : ∀ key ∈ r.keys,
    (∃ l, (key, l) ∈ s.table) ∨ s.current key.2.1 key.2.2 = false
  used : ∀ key ∈ r.keys, key.2.2 ∈ generations s.assignments.history
  checking : ∀ message generation context, s.loop = .checking message generation context →
    s.assignments.partitions.lookup message.partition = some (generation, context) ∨
      s.assignments.isCancelled context = true

section Unique

variable {cfg : Config} {s t : State} {r r' : Record}

theorem State.current_iff (s : State) (partition : ℤ) (generation : ℕ) :
    s.current partition generation = true ↔
      ∃ context, s.assignments.partitions.lookup partition = some (generation, context) ∧
        s.assignments.isCancelled context = false := by
  unfold State.current
  cases s.assignments.partitions.lookup partition with
  | none => simp
  | some v =>
    obtain ⟨g, c⟩ := v
    simp only [Bool.and_eq_true, beq_iff_eq, Bool.not_eq_true', Option.some.injEq, Prod.mk.injEq]
    constructor
    · intro h
      exact ⟨c, ⟨h.1, rfl⟩, h.2⟩
    · intro h
      obtain ⟨context, ⟨hg, hc⟩, hcancelled⟩ := h
      exact ⟨hg, hc ▸ hcancelled⟩

/-- **An assignment that is over stays over**, as generations are not used again. -/
theorem Ages.over (h : Ages s.assignments t.assignments)
    (hnodup : (generations t.assignments.history).Nodup) {partition : ℤ} {generation : ℕ}
    (hused : generation ∈ generations s.assignments.history)
    (hover : s.current partition generation = false) : t.current partition generation = false := by
  rw [← Bool.not_eq_true] at hover ⊢
  intro hcurrent
  obtain ⟨context, hlookup, hcancelled⟩ := (t.current_iff partition generation).mp hcurrent
  rcases h.lookup partition with hsame | hnone | ⟨c, hnew, hgenerations⟩
  · refine hover ((s.current_iff partition generation).mpr ⟨context, hsame ▸ hlookup, ?_⟩)
    rw [← Bool.not_eq_true] at hcancelled ⊢
    exact fun hc => hcancelled (h.cancelled context hc)
  · rw [hnone] at hlookup
    cases hlookup
  · rw [hnew] at hlookup
    cases hlookup
    rw [hgenerations] at hnodup
    exact (List.nodup_cons.mp hnodup).1 hused

theorem Follows.ages {s t : Kafka.State} (h : Follows cfg s t) : Ages s t := by
  rcases h with rfl | ⟨a, ha⟩
  · exact .of_eq rfl (fun _ hc => hc) id rfl
  · exact ages_step ha

theorem State.table_of_message (h : s.loop.message = none) : s.table = s.lanes := by
  unfold State.table
  cases hloop : s.loop with
  | retaining message kept todo revision =>
    rw [hloop] at h
    cases h
  | _ => rfl

theorem State.table_retaining {message : Message} {kept todo : List (LaneKey × ℕ)} {revision : ℕ}
    (h : s.loop = .retaining message kept todo revision) : s.table = kept ++ todo := by
  unfold State.table
  rw [h]

theorem State.table_subset (h : Sorted s r) {x : LaneKey × ℕ} (hx : x ∈ s.table) :
    x ∈ s.lanes := by
  cases hloop : s.loop with
  | retaining message kept todo revision =>
    rw [State.table_retaining hloop] at hx
    exact h.retaining message kept todo revision hloop x hx
  | _ => rwa [State.table, hloop] at hx

/-- No lane is added. -/
theorem Unique.move (h : Unique s r) (hages : Ages s.assignments t.assignments)
    (hnodup : (generations t.assignments.history).Nodup)
    (htable : ∀ x ∈ s.table, x ∈ t.table ∨ s.current x.1.2.1 x.1.2.2 = false)
    (hchecking : ∀ message generation context, t.loop = .checking message generation context →
      s.loop = .checking message generation context ∨
        s.assignments.partitions.lookup message.partition = some (generation, context)) :
    Unique t r where
  nodup := h.nodup
  retired key hkey := by
    have hover : s.current key.2.1 key.2.2 = false → t.current key.2.1 key.2.2 = false :=
      hages.over hnodup (h.used key hkey)
    rcases h.retired key hkey with ⟨l, hl⟩ | hcurrent
    · rcases htable _ hl with hkept | hcurrent
      · exact .inl ⟨l, hkept⟩
      · exact .inr (hover hcurrent)
    · exact .inr (hover hcurrent)
  used key hkey := hages.used _ (h.used key hkey)
  checking message generation context hloop := by
    have hlookup : s.assignments.partitions.lookup message.partition = some (generation, context) ∨
        s.assignments.isCancelled context = true := by
      rcases hchecking message generation context hloop with hbefore | hlookup
      · exact h.checking message generation context hbefore
      · exact .inl hlookup
    rcases hlookup with hlookup | hcancelled
    · exact hages.held _ _ _ hlookup
    · exact .inr (hages.cancelled _ hcancelled)

theorem Ages.refl (s : Kafka.State) : Ages s s := .of_eq rfl (fun _ hc => hc) id rfl

/-- The generation that a partition holds was drawn. -/
theorem mem_generations {history : List Kafka.Event} {p : ℤ} {g c : ℕ}
    (h : granted history p = some (g, c)) : g ∈ generations history := by
  induction history with
  | nil => cases h
  | cons event history ih =>
    cases event with
    | assigned g' eager grants =>
      simp only [granted] at h
      split at h
      · cases h
        exact List.mem_cons_self
      · split_ifs at h
        exact List.mem_cons_of_mem _ (ih h)
    | revoked eager partitions =>
      simp only [granted] at h
      split_ifs at h
      exact ih h

/-- A lane is opened under a key that no lane has had. -/
theorem Unique.opened (h : Unique s r) (hfenced : Fenced s.assignments) {message : Message}
    {generation context : ℕ} (hloop : s.loop = .checking message generation context)
    (hcancelled : s.assignments.isCancelled context = false)
    (hlookup : s.lanes.lookup (message.topic, message.partition, generation) = none) :
    (message.topic, message.partition, generation) ∉ r.keys ∧
      generation ∈ generations s.assignments.history := by
  have hheld : s.assignments.partitions.lookup message.partition = some (generation, context) := by
    rcases h.checking message generation context hloop with hheld | hgone
    · exact hheld
    · rw [hcancelled] at hgone
      cases hgone
  refine ⟨fun hkey => ?_, mem_generations (hfenced.live _ _ _ hheld)⟩
  rcases h.retired _ hkey with ⟨l, hl⟩ | hover
  · unfold State.table at hl
    rw [hloop] at hl
    have hne := List.lookup_eq_none_iff.mp hlookup _ hl
    simp at hne
  · have hcurrent := (s.current_iff message.partition generation).mpr ⟨context, hheld, hcancelled⟩
    rw [hover] at hcurrent
    cases hcurrent

theorem Unique.step (h : Unique s r) (hsorted : Sorted s r) (hfenced : Fenced s.assignments)
    (hnodup : (generations t.assignments.history).Nodup) (hm : Moves cfg s r t r') :
    Unique t r' := by
  cases hm with
  | aside hassignments hloop hlanes _ _ =>
    refine h.move hassignments.ages hnodup (fun x hx => .inl ?_) fun message g c hchecking => ?_
    · rcases hloop with hloop | hloop
      · unfold State.table at hx ⊢
        rwa [hloop, hlanes]
      · rw [State.table_of_message hloop, hlanes]
        exact State.table_subset hsorted hx
    · rcases hloop with hloop | hloop
      · exact .inl (hloop ▸ hchecking)
      · rw [hchecking] at hloop
        cases hloop
  | received message hloop =>
    refine ⟨h.nodup, fun key hkey => ?_, h.used, fun _ _ _ hchecking => ?_⟩
    · have hretired := h.retired key hkey
      rwa [State.table, hloop] at hretired
    · cases hchecking
  | loaded message hloop =>
    refine h.move (.refl _) hnodup (fun x hx => .inl ?_) fun _ _ _ hchecking => ?_
    · rwa [State.table, hloop] at hx
    · cases hchecking
  | retaining message order revision hloop horder =>
    refine h.move (.refl _) hnodup (fun x hx => .inl ?_) fun _ _ _ hchecking => ?_
    · rw [State.table, hloop] at hx
      exact horder.mem_iff.mpr hx
    · cases hchecking
  | kept message kept todo key l revision hloop =>
    refine h.move (.refl _) hnodup (fun x hx => .inl ?_) fun _ _ _ hchecking => ?_
    · rw [State.table_retaining hloop] at hx
      show x ∈ (kept ++ [(key, l)]) ++ todo
      rwa [List.append_assoc]
    · cases hchecking
  | dropped message kept todo key l revision hloop hcurrent =>
    refine h.move (.refl _) hnodup (fun x hx => ?_) fun _ _ _ hchecking => ?_
    · rw [State.table_retaining hloop] at hx
      rcases List.mem_append.mp hx with hx | hx
      · exact .inl (List.mem_append_left todo hx)
      · rcases List.mem_cons.mp hx with rfl | hx
        · exact .inr hcurrent
        · exact .inl (List.mem_append_right kept hx)
    · cases hchecking
  | retained message kept revision hloop =>
    refine h.move (.refl _) hnodup (fun x hx => .inl ?_) fun _ _ _ hchecking => ?_
    · rwa [State.table_retaining hloop, List.append_nil] at hx
    · cases hchecking
  | got message generation context hloop hlookup =>
    refine h.move (.refl _) hnodup (fun x hx => .inl ?_) fun _ _ _ hchecking => ?_
    · rwa [State.table, hloop] at hx
    · cases hchecking
      exact .inr hlookup
  | entered message generation context l hloop hlookup =>
    refine h.move (.refl _) hnodup (fun x hx => .inl ?_) fun _ _ _ hchecking => ?_
    · rwa [State.table, hloop] at hx
    · cases hchecking
  | opened message generation context hloop hcancelled hlookup =>
    obtain ⟨hfresh, hgeneration⟩ := h.opened hfenced hloop hcancelled hlookup
    refine ⟨?_, fun key hkey => ?_, fun key hkey => ?_, fun _ _ _ hchecking => ?_⟩
    · rw [List.nodup_append_comm, List.singleton_append, List.nodup_cons]
      exact ⟨hfresh, h.nodup⟩
    · rcases List.mem_append.mp hkey with hkey | hkey
      · rcases h.retired key hkey with ⟨l, hl⟩ | hover
        · rw [State.table, hloop] at hl
          exact .inl ⟨l, List.mem_append_left _ hl⟩
        · exact .inr hover
      · cases List.mem_singleton.mp hkey
        exact .inl ⟨s.nextLane, List.mem_append_right _ List.mem_cons_self⟩
    · rcases List.mem_append.mp hkey with hkey | hkey
      · exact h.used key hkey
      · cases List.mem_singleton.mp hkey
        exact hgeneration
    · cases hchecking
  | sent message l x hloop hx =>
    refine ⟨h.nodup, fun key hkey => ?_, h.used, fun _ _ _ hchecking => ?_⟩
    · have hretired := h.retired key hkey
      rwa [State.table, hloop] at hretired
    · cases hchecking
  | lane l x pc hx => exact ⟨h.nodup, h.retired, h.used, h.checking⟩
  | handled l x message queue hx hqueue => exact ⟨h.nodup, h.retired, h.used, h.checking⟩

/-- The assignments beside the loop run as they do alone. -/
theorem assignments_reachable (h : (recorded cfg).Reachable (s, r)) :
    (Kafka.assignments cfg).Reachable s.assignments := by
  refine System.Reachable.invariant
    (I := fun x : State × Record => (Kafka.assignments cfg).Reachable x.1.assignments) ?_
    (fun x a y hx hy => ?_) h
  · exact System.Reach.init
  · obtain ⟨t, ht, rfl⟩ := Option.map_eq_some_iff.mp hy
    rcases (moves ht x.2).follows with hsame | ⟨b, hb⟩
    · exact hsame ▸ hx
    · exact hx.next hb

theorem unique (h : (recorded cfg).Reachable (s, r)) (hlt : s.assignments.rebalances < 2 ^ 64) :
    Unique s r := by
  refine (h.invariant (I := fun x => (recorded cfg).Reachable x ∧
    (x.1.assignments.rebalances < 2 ^ 64 → Unique x.1 x.2)) ⟨.init, fun _ => ?_⟩
    fun x a y hx hy => ⟨hx.1.next hy, fun hy' => ?_⟩).2 hlt
  · refine ⟨List.nodup_nil, fun key hkey => ?_, fun key hkey => ?_, fun _ _ _ hchecking => ?_⟩
    · cases hkey
    · cases hkey
    · cases hchecking
  · have hnext := assignments_reachable (hx.1.next hy)
    obtain ⟨t, ht, rfl⟩ := Option.map_eq_some_iff.mp hy
    have hmoves := moves ht x.2
    have hle : x.1.assignments.rebalances ≤ t.assignments.rebalances := by
      rcases hmoves.follows with hsame | ⟨b, hb⟩
      · exact (congrArg Kafka.State.rebalances hsame).ge
      · exact Kafka.rebalances_step hb
    have hnodup : (generations t.assignments.history).Nodup :=
      (Kafka.counted hnext hy').sorted.imp fun hgt => hgt.ne'
    exact (hx.2 (hle.trans_lt hy')).step (sorted hx.1) (Kafka.fenced (assignments_reachable hx.1))
      hnodup hmoves

end Unique

/-! ## The order of a partition -/

section Order

variable {cfg : Config} {s : State} {r : Record}

/-- What a lane was sent has the topic and the partition of its key. -/
theorem Sorted.of_lane (h : Sorted s r) {l : ℕ} {key : LaneKey} (hkey : r.keys[l]? = some key)
    {message : Message} (hmessage : message ∈ through l r.sent) :
    message.topic = key.1 ∧ message.partition = key.2.1 := by
  obtain ⟨generation, hlane⟩ := h.numbered l message (Channel.mem_through.mp hmessage)
  cases hkey.symm.trans hlane
  exact ⟨rfl, rfl⟩

theorem Sorted.handled_front (h : Sorted s r) (l : ℕ) :
    through l r.handled <+: through l r.sent := ⟨s.queue l, (h.passed l).symm⟩

theorem Sorted.sent_sublist (h : Sorted s r) : (r.sent.map fun x => x.2).Sublist r.received :=
  (List.sublist_append_left _ _).trans h.order

/-- A lane handles messages of its partition in the order in which they were received. -/
theorem Sorted.handled_sublist (h : Sorted s r) {l : ℕ} {key : LaneKey}
    (hkey : r.keys[l]? = some key) : (through l r.handled).Sublist (r.receivedFor key) := by
  have hsent : (through l r.sent).Sublist (r.receivedFor key) := by
    have hall : (through l r.sent).filter (fun message =>
        message.topic = key.1 ∧ message.partition = key.2.1) = through l r.sent :=
      List.filter_eq_self.mpr fun message hmessage =>
        decide_eq_true (h.of_lane hkey hmessage)
    rw [← hall]
    exact ((Channel.through_sublist l r.sent).trans h.sent_sublist).filter _
  exact (h.handled_front l).sublist.trans hsent

/-- The messages of a key are those of its lane. -/
theorem Unique.handledUnder_eq (h : Unique s r) {l : ℕ} {key : LaneKey}
    (hkey : r.keys[l]? = some key) : r.handledUnder key = through l r.handled := by
  have hlane : ∀ l', r.keys[l']? = some key ↔ l' = l := by
    intro l'
    constructor
    · intro hl'
      exact ((List.getElem?_inj (List.getElem?_eq_some_iff.mp hl').1 h.nodup).mp
        (hl'.trans hkey.symm))
    · intro hl'
      exact hl' ▸ hkey
  unfold Record.handledUnder through
  simp only [hlane]

theorem Unique.handledUnder_sublist (h : Unique s r) (hsorted : Sorted s r) (key : LaneKey) :
    (r.handledUnder key).Sublist (r.receivedFor key) := by
  by_cases hkey : key ∈ r.keys
  · obtain ⟨l, hl⟩ := List.mem_iff_getElem?.mp hkey
    rw [h.handledUnder_eq hl]
    exact hsorted.handled_sublist hl
  · have hnone : r.handledUnder key = [] := by
      unfold Record.handledUnder
      rw [List.filter_eq_nil_iff.mpr fun x _ => ?_, List.map_nil]
      rw [decide_eq_true_eq]
      exact fun hx => hkey (List.mem_of_getElem? hx)
    rw [hnone]
    exact List.nil_sublist _

end Order

/-- **Messages of a partition are handled in order.** Whatever the loop, the lanes, the rebalances
and whoever stops or cancels do between each other: no message is handled more often than it was
received, and a lane handles messages of its topic and partition in the order in which they were
received. With fewer than `2 ^ 64` rebalances, each assignment of a partition has at most one lane,
so that all that is handled under it is handled in that order, one message after the other. -/
theorem lane_order (cfg : Config) (s : State) (r : Record)
    (h : (recorded cfg).Reachable (s, r)) :
    (r.handled.map fun x => x.2).Subperm r.received ∧
    (∀ (l : ℕ) key, r.keys[l]? = some key → (through l r.handled).Sublist (r.receivedFor key)) ∧
    (s.assignments.rebalances < 2 ^ 64 → ∀ key,
      (∀ l l' : ℕ, r.keys[l]? = some key → r.keys[l']? = some key → l = l') ∧
      (r.handledUnder key).Sublist (r.receivedFor key)) := by
  have hsorted := sorted h
  refine ⟨?_, fun l key hkey => hsorted.handled_sublist hkey, fun hlt key => ⟨?_, ?_⟩⟩
  · exact (Channel.subperm_of_fronts hsorted.handled_front).trans hsorted.sent_sublist.subperm
  · intro l l' hl hl'
    exact (List.getElem?_inj (List.getElem?_eq_some_iff.mp hl).1 (unique h hlt).nodup).mp
      (hl.trans hl'.symm)
  · exact (unique h hlt).handledUnder_sublist hsorted key

/-- Partition 2 is assigned, a message of it is handled, and after a reassignment another one. -/
def twoAssignments : List Action :=
  let list : List Kafka.Item := [⟨"orders", 2, none⟩]
  let first : LaneKey × ℕ := (("orders", 2, 1), 0)
  [.assignments (.assign Kafka.calm list), .assignments .assignLocked,
    .recv ⟨"orders", 2, 10⟩, .loadRevision [], .retain, .get, .checkContext, .send,
    .laneReceive 0, .laneHandled 0, .recv ⟨"orders", 2, 11⟩, .loadRevision [], .get, .checkContext,
    .send, .assignments (.assign Kafka.calm list), .assignments .assignLocked, .laneReceive 0,
    .recv ⟨"orders", 2, 12⟩, .loadRevision [first], .retain, .retain, .get, .checkContext, .send,
    .laneReceive 1]

theorem twoAssignments_runs :
    ((recorded ⟨"orders", false⟩).run (.init, .init) twoAssignments).isSome := by
  decide

/-- Messages 10 and 11 are handled under the first assignment and 12 under the second, by a lane of
its own, while 11 is still handled. -/
theorem lane_order_twoAssignments :
    ∃ s r, (recorded ⟨"orders", false⟩).Reachable (s, r) ∧
      s.assignments.rebalances < 2 ^ 64 ∧
      r.handledUnder ("orders", 2, 1) = [⟨"orders", 2, 10⟩, ⟨"orders", 2, 11⟩] ∧
      r.handledUnder ("orders", 2, 2) = [⟨"orders", 2, 12⟩] ∧
      (r.handledUnder ("orders", 2, 2)).Sublist (r.receivedFor ("orders", 2, 2)) := by
  have h := System.reachable_get twoAssignments_runs
  refine ⟨_, _, h, by decide, by decide, by decide, ?_⟩
  exact ((lane_order _ _ _ h).2.2 (by decide) ("orders", 2, 2)).2

end ConsumeLoop

end ServiceLib
