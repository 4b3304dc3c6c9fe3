import ServiceLib.Pool.QueuedPool

/-!
# Every accepted task runs exactly once

In every state that callers, actor, executors and cancellations can reach together, an `add_task`
call that returned `Ok` has its task either once in the queue or once at one executor, and once the
pool is drained the task has run; the task of a call that returned an error is never handed over.

The invariant has three parts that are kept apart, so that a step only touches the part it is about:
`AddsOk` relates calls, commands in flight and accepted tasks; `WorkerOk` counts, for one executor,
what it was handed against what it still owes (a task in its inbox, a running task, an unsent or an
unread `Ready`); `RunOk` is about the variables of the actor. The loops of `settle` go through
`settle_rule`, which only asks what one round of each does.
-/

namespace ServiceLib

namespace QueuedPool

/-! ## The invariant -/

/-- The tasks of the `Add` commands in the channel. -/
abbrev addsIn (channel : List Command) : List ℕ := channel.filterMap Command.task

/-- What one `add_task` call has come to. -/
def CallOk (c : AddCall) (inChannel : Prop) : Prop :=
  match c.pc with
  | .idle | .called | .checked | .loaded | .launched => c.reply = .pending ∧ ¬inChannel
  | .waiting | .dropped => True
  | .returned (.ok _) => c.reply = .sent (.ok ())
  | .returned (.error _) => c.reply ≠ .sent (.ok ()) ∧ ¬inChannel

/-- The tasks that were accepted are those that `add_task` was told `Ok` about. -/
structure AddsOk (adds : ℕ → AddCall) (channel : List Command) (accepted : List ℕ) : Prop where
  nodup : accepted.Nodup
  accepted : ∀ i, i ∈ accepted ↔ (adds i).reply = .sent (.ok ())
  channelNodup : (addsIn channel).Nodup
  pending : ∀ i ∈ addsIn channel, (adds i).reply = .pending
  call : ∀ i, CallOk (adds i) (i ∈ addsIn channel)

/-- What a worker still has to do before it reports. -/
def Worker.load (x : Worker) : ℕ :=
  x.inbox.length + match x.pc with
    | .running _ | .reporting => 1
    | _ => 0

/-- The tasks a worker has received and not run. -/
def Worker.held (x : Worker) : List ℕ :=
  match x.pc with
  | .running task => task :: x.inbox
  | _ => x.inbox

def handedTo (dispatched : List Dispatch) (w : ℕ) : List ℕ :=
  (dispatched.filter fun d => d.worker = w).map Dispatch.task

def finishedBy (finished : List (ℕ × ℕ)) (w : ℕ) : List ℕ :=
  (finished.filter fun f => f.2 = w).map Prod.fst

/-- One worker: an executor that is not idle owes exactly one `Ready`. -/
structure WorkerOk (run : Run) (x : Worker) (readies : ℕ) (handed finished : List ℕ) (w : ℕ) :
    Prop where
  idle : w ∈ run.idle → x.load + readies = 0
  busy : w ∈ run.executors → w ∉ run.idle → x.load + readies = 1
  gone : w ∉ run.executors → x.load + readies = 0
  alive : w ∈ run.executors → x.pc ≠ .exited
  fresh : run.nextWorker ≤ w → w ∉ run.executors ∧ x = ⟨.unborn, []⟩
  held : handed = finished ++ x.held

def WorkersOk (s : State) : Prop :=
  ∀ w, WorkerOk s.run (s.workers w) (s.channel.count (.ready w)) (handedTo s.dispatched w)
    (finishedBy s.finished w) w

/-- The actor's variables; `l` lists the queue. -/
structure RunOk (cfg : Config) (run : Run) (l : List (Item Entry)) : Prop where
  queue : PendingQueue.Represents cfg.priority run.queue l
  ids : ∀ x ∈ l, x.id < run.nextId
  idleNodup : run.idle.Nodup
  idleMem : ∀ w ∈ run.idle, w ∈ run.executors
  busy : run.busy + run.idle.length = run.executors.card
  retiring : run.retiring = true → run.stopped = true ∧ l = [] ∧ run.executors = ∅

/-- The tasks in the queue and those handed over. -/
def acceptedTasks (l : List (Item Entry)) (dispatched : List Dispatch) : List ℕ :=
  l.map (fun x => x.entry.task) ++ dispatched.map Dispatch.task

structure Core (cfg : Config) (s : State) (l : List (Item Entry)) : Prop where
  run : RunOk cfg s.run l
  workers : WorkersOk s
  adds : AddsOk s.adds s.channel (acceptedTasks l s.dispatched)

/-- Where the actor is. -/
def ActorOk (cfg : Config) (s : State) : Prop :=
  match s.actor with
  | .absent => s.launched = false ∧ ∃ target, s.run = .new cfg target
  | .spawned => s.launched = true ∧ ∃ target, s.run = .new cfg target
  | .select _ _ => s.launched = true
  | .returned | .drained => s.launched = true ∧ s.run.retiring = true ∧ s.channel = []
  | .panicked => False

structure Ok (cfg : Config) (s : State) (l : List (Item Entry)) : Prop where
  core : Core cfg s l
  actor : ActorOk cfg s
  drained : s.drained = true → s.actor = .drained
  stops : ∀ i, s.stops i = .returned → s.drained = true

theorem ok_init (cfg : Config) : Ok cfg (.init cfg) [] := by
  refine ⟨⟨⟨PendingQueue.new_represents _, ?_, List.nodup_nil, ?_, rfl, ?_⟩, fun w => ?_, ?_⟩,
    ⟨rfl, _, rfl⟩, ?_, ?_⟩
  · simp
  · intro w hw
    cases hw
  · intro h
    cases h
  · exact ⟨fun _ => rfl, fun h => by simp [State.init, Run.new] at h, fun _ => rfl,
      fun h => by simp [State.init, Run.new] at h, fun _ => ⟨by simp [State.init, Run.new], rfl⟩,
      rfl⟩
  · refine ⟨List.nodup_nil, fun i => ?_, List.nodup_nil, ?_, fun i => ⟨rfl, ?_⟩⟩
    · simp [State.init, acceptedTasks]
    · simp [State.init]
    · simp [State.init]
  · intro h
    cases h
  · intro i h
    cases h

/-! ## Calls and commands -/

section Adds

variable {adds : ℕ → AddCall} {channel : List Command} {accepted : List ℕ}

theorem AddsOk.perm (h : AddsOk adds channel accepted) {accepted' : List ℕ}
    (hp : accepted'.Perm accepted) : AddsOk adds channel accepted' :=
  ⟨hp.nodup_iff.2 h.nodup, fun i => hp.mem_iff.trans (h.accepted i), h.channelNodup, h.pending,
    h.call⟩

/-- Only the `Add` commands matter. -/
theorem AddsOk.congr_channel (h : AddsOk adds channel accepted) {channel' : List Command}
    (hc : addsIn channel' = addsIn channel) : AddsOk adds channel' accepted := by
  refine ⟨h.nodup, h.accepted, ?_, ?_, ?_⟩
  · rw [hc]
    exact h.channelNodup
  · rw [hc]
    exact h.pending
  · rw [hc]
    exact h.call

/-- A call whose command is in the channel waits for it, or its future was dropped while it did. -/
theorem AddsOk.waits (h : AddsOk adds channel accepted) {i : ℕ} (hi : i ∈ addsIn channel) :
    (adds i).pc = .waiting ∨ (adds i).pc = .dropped := by
  have hcall := h.call i
  have hpend := h.pending i hi
  unfold CallOk at hcall
  cases hpc : (adds i).pc with
  | waiting => exact Or.inl rfl
  | dropped => exact Or.inr rfl
  | idle | called | checked | loaded | launched =>
    rw [hpc] at hcall
    exact absurd hi hcall.2
  | returned result =>
    rw [hpc] at hcall
    cases result with
    | ok _ => exact absurd (hpend.symm.trans hcall) nofun
    | error _ => exact absurd hi hcall.2

/-- Such a call is fine whatever its reply. -/
theorem callOk_of_waits {c : AddCall} (h : c.pc = .waiting ∨ c.pc = .dropped) (p : Prop) :
    CallOk c p := by
  rcases h with h | h <;> simp [CallOk, h]

/-- A call goes on without touching its reply. -/
theorem AddsOk.goto (h : AddsOk adds channel accepted) {i : ℕ} {c : AddCall}
    (hr : c.reply = (adds i).reply) (hc : CallOk c (i ∈ addsIn channel)) :
    AddsOk (Function.update adds i c) channel accepted := by
  have hreply : ∀ j, (Function.update adds i c j).reply = (adds j).reply := by
    intro j
    by_cases hj : j = i
    · subst hj
      rw [Function.update_self, hr]
    · rw [Function.update_of_ne hj]
  refine ⟨h.nodup, fun j => ?_, h.channelNodup, fun j hj => ?_, fun j => ?_⟩
  · rw [hreply]
    exact h.accepted j
  · rw [hreply]
    exact h.pending j hj
  · by_cases hj : j = i
    · subst hj
      rw [Function.update_self]
      exact hc
    · rw [Function.update_of_ne hj]
      exact h.call j

/-- A call sends its command and waits. -/
theorem AddsOk.send (h : AddsOk adds channel accepted) {i : ℕ} {c : AddCall} {context : ℕ}
    {priority : Int32} (hr : c.reply = (adds i).reply) (hp : (adds i).reply = .pending)
    (hpc : c.pc = .waiting) (hi : i ∉ addsIn channel) :
    AddsOk (Function.update adds i c) (channel ++ [.add context priority i]) accepted := by
  have hadds : addsIn (channel ++ [.add context priority i]) = addsIn channel ++ [i] := by
    simp [addsIn, Command.task]
  have hg : AddsOk (Function.update adds i c) channel accepted :=
    h.goto hr (callOk_of_waits (Or.inl hpc) _)
  refine ⟨hg.nodup, hg.accepted, ?_, ?_, ?_⟩
  · rw [hadds, List.nodup_append]
    exact ⟨h.channelNodup, List.nodup_singleton _, fun a ha b hb hab =>
      hi (List.mem_singleton.1 hb ▸ hab ▸ ha)⟩
  · intro j hj
    rw [hadds, List.mem_append, List.mem_singleton] at hj
    rcases hj with hj | rfl
    · exact hg.pending j hj
    · rw [Function.update_self, hr, hp]
  · intro j
    by_cases hj : j = i
    · subst hj
      rw [Function.update_self]
      exact callOk_of_waits (Or.inl hpc) _
    · have hiff : (j ∈ addsIn (channel ++ [.add context priority i])) = (j ∈ addsIn channel) := by
        rw [hadds, List.mem_append, List.mem_singleton, or_iff_left hj]
      rw [hiff]
      exact hg.call j

/-- The command at the head of the channel is answered. -/
theorem AddsOk.answer {context : ℕ} {priority : Int32} {i : ℕ}
    (h : AddsOk adds (.add context priority i :: channel) accepted) (r : RuntimeResult Unit) :
    AddsOk (Function.update adds i { adds i with reply := .sent r }) channel
      (if r = .ok () then i :: accepted else accepted) := by
  have hadds : addsIn (.add context priority i :: channel) = i :: addsIn channel := rfl
  have hpend : (adds i).reply = .pending := h.pending i (by rw [hadds]; simp)
  have hi : i ∉ addsIn channel := (List.nodup_cons.1 (hadds ▸ h.channelNodup)).1
  have hna : i ∉ accepted := by
    rw [h.accepted i, hpend]
    exact nofun
  have hmem : ∀ j, j ∈ addsIn channel → j ∈ addsIn (.add context priority i :: channel) :=
    fun j hj => hadds ▸ List.mem_cons_of_mem _ hj
  refine ⟨?_, fun j => ?_, ?_, fun j hj => ?_, fun j => ?_⟩
  · split_ifs
    · exact List.nodup_cons.2 ⟨hna, h.nodup⟩
    · exact h.nodup
  · by_cases hj : j = i
    · subst hj
      rw [Function.update_self]
      by_cases hr : r = .ok ()
      · simp [hr]
      · simp [hr, hna]
    · have : (j ∈ if r = .ok () then i :: accepted else accepted) ↔ j ∈ accepted := by
        split_ifs
        · rw [List.mem_cons, or_iff_right hj]
        · rfl
      rw [Function.update_of_ne hj, this]
      exact h.accepted j
  · exact (List.nodup_cons.1 (hadds ▸ h.channelNodup)).2
  · have hji : j ≠ i := fun he => hi (he ▸ hj)
    rw [Function.update_of_ne hji]
    exact h.pending j (hmem j hj)
  · by_cases hj : j = i
    · subst hj
      rw [Function.update_self]
      apply callOk_of_waits
      exact h.waits (hadds ▸ List.mem_cons_self)
    · have hiff : (j ∈ addsIn (.add context priority i :: channel)) = (j ∈ addsIn channel) := by
        rw [hadds, List.mem_cons, or_iff_right hj]
      rw [Function.update_of_ne hj, ← hiff]
      exact h.call j

/-- The commands that are left in the channel are dropped with it. -/
theorem AddsOk.close (h : AddsOk adds channel accepted) :
    AddsOk (fun i => if i ∈ addsIn channel then { adds i with reply := .closed } else adds i) []
      accepted := by
  refine ⟨h.nodup, fun i => ?_, List.nodup_nil, nofun, fun i => ?_⟩
  · by_cases hi : i ∈ addsIn channel
    · rw [if_pos hi, h.accepted i, h.pending i hi]
      simp
    · rw [if_neg hi]
      exact h.accepted i
  · have hcall := h.call i
    by_cases hi : i ∈ addsIn channel
    · rw [if_pos hi]
      apply callOk_of_waits
      exact h.waits hi
    · rw [if_neg hi]
      have : (i ∈ addsIn []) = (i ∈ addsIn channel) := by simp [hi]
      rw [this]
      exact hcall

end Adds

/-! ## One round of each loop -/

/-- What the loops over the executors leave alone. -/
structure Kept (s t : State) : Prop where
  rest : t = { s with run := t.run, workers := t.workers, dispatched := t.dispatched }
  flags : t.run = { s.run with
    queue := t.run.queue
    cancellations := t.run.cancellations
    workers := t.run.workers
    executors := t.run.executors
    idle := t.run.idle
    nextWorker := t.run.nextWorker
    busy := t.run.busy }

theorem Kept.refl (s : State) : Kept s s := ⟨rfl, rfl⟩

theorem Kept.trans {s t u : State} (h₁ : Kept s t) (h₂ : Kept t u) : Kept s u := by
  obtain ⟨hr₁, hf₁⟩ := h₁
  obtain ⟨hr₂, hf₂⟩ := h₂
  refine ⟨?_, ?_⟩
  · rw [hr₂, hr₁]
  · rw [hf₂, hf₁]

variable {cfg : Config} {s : State} {l : List (Item Entry)}

/-- The executor at the front of `idle` is let go. -/
theorem Core.retire (h : Core cfg s l) {w : ℕ} {idle : List ℕ} (hi : s.run.idle = w :: idle) :
    Core cfg { s with run := { s.run with
      executors := s.run.executors.erase w, idle := idle } } l := by
  have hmem := h.run.idleMem
  have hnodup := h.run.idleNodup
  have hbusy := h.run.busy
  rw [hi] at hmem hnodup hbusy
  rw [List.nodup_cons] at hnodup
  have hw : w ∈ s.run.executors := hmem w List.mem_cons_self
  refine ⟨⟨h.run.queue, h.run.ids, hnodup.2, fun v hv => ?_, ?_, fun hr => ?_⟩, fun v => ?_, h.adds⟩
  · exact Finset.mem_erase.2 ⟨fun he => hnodup.1 (he ▸ hv), hmem v (List.mem_cons_of_mem _ hv)⟩
  · have hcard := Finset.card_erase_add_one hw
    rw [List.length_cons] at hbusy
    change s.run.busy + idle.length = (s.run.executors.erase w).card
    omega
  · obtain ⟨h₁, h₂, h₃⟩ := h.run.retiring hr
    exact ⟨h₁, h₂, by rw [h₃]; rfl⟩
  · have hv := h.workers v
    have hidle : v ∈ s.run.idle ↔ v = w ∨ v ∈ idle := by rw [hi, List.mem_cons]
    refine ⟨fun hm => hv.idle (hidle.2 (Or.inr hm)), fun hm hn => ?_, fun hm => ?_, fun hm => ?_,
      fun hn => ⟨fun hm => ?_, (hv.fresh hn).2⟩, hv.held⟩
    · obtain ⟨hne, hm⟩ := Finset.mem_erase.1 hm
      exact hv.busy hm fun hc => (hidle.1 hc).elim hne hn
    · by_cases he : v = w
      · exact hv.idle (hidle.2 (Or.inl he))
      · exact hv.gone fun hc => hm (Finset.mem_erase.2 ⟨he, hc⟩)
    · exact hv.alive (Finset.mem_erase.1 hm).2
    · exact (hv.fresh hn).1 (Finset.mem_erase.1 hm).2

/-- The state after a worker was spawned. -/
def spawned (s : State) : State :=
  State.setWorker { s with run := { s.run with
    nextWorker := s.run.nextWorker + 1
    executors := insert s.run.nextWorker s.run.executors
    idle := s.run.idle ++ [s.run.nextWorker]
    workers := insert s.run.nextWorker s.run.workers } } s.run.nextWorker ⟨.receiving, []⟩

theorem Core.nextWorker_notMem (h : Core cfg s l) : s.run.nextWorker ∉ s.run.executors :=
  ((h.workers _).fresh le_rfl).1

theorem Core.spawn (h : Core cfg s l) (hr : s.run.retiring = false) : Core cfg (spawned s) l := by
  have hnew := h.nextWorker_notMem
  have hidle : s.run.nextWorker ∉ s.run.idle := fun hm => hnew (h.run.idleMem _ hm)
  refine ⟨⟨h.run.queue, h.run.ids, ?_, fun v hv => ?_, ?_, fun hc => ?_⟩, fun v => ?_, h.adds⟩
  · change (s.run.idle ++ [s.run.nextWorker]).Nodup
    rw [List.nodup_append]
    exact ⟨h.run.idleNodup, List.nodup_singleton _, fun a ha b hb hab =>
      hidle (List.mem_singleton.1 hb ▸ hab ▸ ha)⟩
  · change v ∈ s.run.idle ++ [s.run.nextWorker] at hv
    change v ∈ insert s.run.nextWorker s.run.executors
    rw [List.mem_append, List.mem_singleton] at hv
    rw [Finset.mem_insert]
    rcases hv with hv | hv
    · exact Or.inr (h.run.idleMem v hv)
    · exact Or.inl hv
  · change s.run.busy + (s.run.idle ++ [s.run.nextWorker]).length =
      (insert s.run.nextWorker s.run.executors).card
    rw [Finset.card_insert_of_notMem hnew, List.length_append, List.length_singleton]
    have := h.run.busy
    omega
  · exact absurd (hr.symm.trans hc) nofun
  · have hv := h.workers v
    change WorkerOk _ (Function.update s.workers s.run.nextWorker ⟨.receiving, []⟩ v)
      (s.channel.count (.ready v)) (handedTo s.dispatched v) (finishedBy s.finished v) v
    by_cases he : v = s.run.nextWorker
    · -- the new worker owes nothing
      subst he
      have hg := hv.gone hnew
      have hx := (hv.fresh le_rfl).2
      have hheld := hv.held
      rw [hx] at hg hheld
      rw [Function.update_self]
      refine ⟨fun _ => hg, fun _ hn => ?_, fun hn => ?_, fun _ => nofun, fun hn => ?_, hheld⟩
      · exact absurd (List.mem_append_right _ (List.mem_singleton_self _)) hn
      · exact absurd (Finset.mem_insert_self _ _) hn
      · change s.run.nextWorker + 1 ≤ s.run.nextWorker at hn
        omega
    · rw [Function.update_of_ne he]
      have hexec : v ∈ insert s.run.nextWorker s.run.executors ↔ v ∈ s.run.executors := by
        rw [Finset.mem_insert, or_iff_right he]
      have hid : v ∈ s.run.idle ++ [s.run.nextWorker] ↔ v ∈ s.run.idle := by
        rw [List.mem_append, List.mem_singleton, or_iff_left he]
      refine ⟨fun hm => hv.idle (hid.1 hm), fun hm hn => hv.busy (hexec.1 hm) (fun hc => hn (hid.2 hc)),
        fun hn => hv.gone fun hc => hn (hexec.2 hc), fun hm => hv.alive (hexec.1 hm), fun hn => ?_,
        hv.held⟩
      obtain ⟨h₁, h₂⟩ := hv.fresh (Nat.le_of_succ_le hn)
      exact ⟨fun hm => h₁ (hexec.1 hm), h₂⟩

/-- The state after the first task went to the first idle worker. -/
def dispatchedTo (s : State) (queue : PendingQueue Entry) (entry : Entry) (w : ℕ)
    (idle : List ℕ) : State :=
  State.setWorker { s with
      run := { s.run with
        queue := queue
        cancellations := abort entry.cancellation s.run.cancellations
        idle := idle
        busy := s.run.busy + 1 }
      dispatched := s.dispatched ++ [⟨entry.task, w, s.isCancelled entry.task,
        s.run.queue.any fun e => s.isCancelled e.task⟩] } w
    { s.workers w with inbox := (s.workers w).inbox ++ [entry.task] }

theorem handedTo_append (dispatched : List Dispatch) (d : Dispatch) (v : ℕ) :
    handedTo (dispatched ++ [d]) v =
      if d.worker = v then handedTo dispatched v ++ [d.task] else handedTo dispatched v := by
  unfold handedTo
  rw [List.filter_append, List.map_append]
  by_cases h : d.worker = v
  · simp [h]
  · simp [h]

theorem Core.dispatch {x : Item Entry} (h : Core cfg s (x :: l)) {w : ℕ} {idle : List ℕ}
    (hi : s.run.idle = w :: idle) {queue : PendingQueue Entry}
    (hq : PendingQueue.Represents cfg.priority queue l) :
    Core cfg (dispatchedTo s queue x.entry w idle) l := by
  have hmem := h.run.idleMem
  have hnodup := h.run.idleNodup
  have hbusy := h.run.busy
  rw [hi] at hmem hnodup hbusy
  rw [List.nodup_cons] at hnodup
  have hw : w ∈ s.run.executors := hmem w List.mem_cons_self
  refine ⟨⟨hq, fun y hy => h.run.ids y (List.mem_cons_of_mem _ hy), hnodup.2, fun v hv =>
    hmem v (List.mem_cons_of_mem _ hv), ?_, fun hr => ?_⟩, fun v => ?_, h.adds.perm ?_⟩
  · change s.run.busy + 1 + idle.length = s.run.executors.card
    rw [List.length_cons] at hbusy
    omega
  · have := (h.run.retiring hr).2.1
    cases this
  · have hv := h.workers v
    change WorkerOk _ (Function.update s.workers w _ v) (s.channel.count (.ready v))
      (handedTo (s.dispatched ++ [_]) v) (finishedBy s.finished v) v
    rw [handedTo_append]
    have hidle : v ∈ s.run.idle ↔ v = w ∨ v ∈ idle := by rw [hi, List.mem_cons]
    by_cases he : v = w
    · subst he
      rw [Function.update_self, if_pos rfl]
      have hload := hv.idle (hidle.2 (Or.inl rfl))
      have hpc := hv.alive hw
      refine ⟨fun hm => absurd hm hnodup.1, fun _ _ => ?_, fun hn => absurd hw hn, fun _ => hpc,
        fun hn => absurd hw (hv.fresh hn).1, ?_⟩
      · unfold Worker.load at hload ⊢
        simp only [List.length_append, List.length_singleton]
        omega
      · rw [hv.held, List.append_assoc]
        unfold Worker.held
        cases (s.workers v).pc <;> rfl
    · rw [Function.update_of_ne he, if_neg fun hc => he hc.symm]
      exact ⟨fun hm => hv.idle (hidle.2 (Or.inr hm)), fun hm hn =>
        hv.busy hm fun hc => (hidle.1 hc).elim he hn, hv.gone, hv.alive, hv.fresh, hv.held⟩
  · change (l.map _ ++ (s.dispatched ++ [_]).map _).Perm _
    rw [List.map_append, ← List.append_assoc]
    exact (List.perm_append_singleton _ _).trans (List.Perm.refl _)

/-! ## The loops -/

/-- The loops over the executors run at all. -/
def Active (run : Run) : Prop := run.started = true ∧ run.retiring = false

/-- They have nothing left to spawn or to hand over. -/
def Settled (run : Run) (l : List (Item Entry)) : Prop :=
  Active run → run.target ≤ run.executors.card ∧ (run.idle = [] ∨ l = [])

section Loops

variable {I : State → List (Item Entry) → Prop}

theorem retireIdle_rule
    (hretire : ∀ {s w idle}, I s l → Active s.run → s.run.idle = w :: idle →
      s.run.target < s.run.executors.card →
      I { s with run := { s.run with executors := s.run.executors.erase w, idle := idle } } l)
    (hs : I s l) (ha : Active s.run) :
    ∃ t, retireIdle s = some t ∧ (I t l ∧ Active t.run) ∧
      (t.run.executors.card ≤ t.run.target ∨ t.run.idle = []) := by
  have hround : ∀ u, I u l ∧ Active u.run →
      (decide (u.run.target < u.run.executors.card) && !u.run.idle.isEmpty) = true →
      ∃ t, retireOne u = some t ∧ (I t l ∧ Active t.run) ∧
        t.run.idle.length < u.run.idle.length := by
    rintro u ⟨hu, hau⟩ hc
    rw [Bool.and_eq_true, decide_eq_true_eq] at hc
    cases hidle : u.run.idle with
    | nil => simp [hidle] at hc
    | cons w idle =>
      exact ⟨_, by rw [retireOne, hidle], ⟨hretire hu hau hidle hc.1, hau⟩, by simp⟩
  obtain ⟨t, ht, hi, hd⟩ := whileLoop_rule hround ⟨hs, ha⟩ le_rfl
  refine ⟨t, ht, hi, ?_⟩
  rcases Bool.and_eq_false_iff.1 hd with hd | hd
  · exact Or.inl (by simpa using hd)
  · exact Or.inr (by simpa using hd)

variable (hcore : ∀ {s l}, I s l → Core cfg s l)

include hcore

theorem spawnWorkers_rule
    (hspawn : ∀ {s}, I s l → Active s.run → s.run.executors.card < s.run.target → I (spawned s) l)
    (hs : I s l) (ha : Active s.run) :
    ∃ t, spawnWorkers s = some t ∧ (I t l ∧ Active t.run) ∧ t.run.target ≤ t.run.executors.card := by
  have hround : ∀ u, I u l ∧ Active u.run →
      decide (u.run.executors.card < u.run.target) = true →
      ∃ t, spawnOne u = some t ∧ (I t l ∧ Active t.run) ∧
        t.run.target - t.run.executors.card < u.run.target - u.run.executors.card := by
    rintro u ⟨hu, hau⟩ hc
    have hlt : u.run.executors.card < u.run.target := by simpa using hc
    refine ⟨spawned u, rfl, ⟨hspawn hu hau hlt, hau⟩, ?_⟩
    have hcard := Finset.card_insert_of_notMem (hcore hu).nextWorker_notMem
    change u.run.target - (insert u.run.nextWorker u.run.executors).card < _
    omega
  obtain ⟨t, ht, hi, hd⟩ := whileLoop_rule hround ⟨hs, ha⟩ le_rfl
  exact ⟨t, ht, hi, by simpa using hd⟩

theorem dispatch_rule
    (hdispatch : ∀ {s x l queue w idle}, I s (x :: l) → Active s.run →
      s.run.idle = w :: idle → PendingQueue.Represents cfg.priority queue l →
      I (dispatchedTo s queue x.entry w idle) l)
    (hs : I s l) (ha : Active s.run) (ht : s.run.target ≤ s.run.executors.card) :
    ∃ t l', dispatch s = some t ∧ I t l' ∧ Settled t.run l' := by
  have hround : ∀ u, (∃ l, I u l) ∧ Active u.run ∧ u.run.target ≤ u.run.executors.card →
      (!u.run.idle.isEmpty && !u.run.queue.isEmpty) = true →
      ∃ t, dispatchOne u = some t ∧
        ((∃ l, I t l) ∧ Active t.run ∧ t.run.target ≤ t.run.executors.card) ∧
        t.run.idle.length < u.run.idle.length := by
    rintro u ⟨⟨l', hu⟩, hau, htu⟩ hc
    have hcu := hcore hu
    rw [hcu.run.queue.isEmpty] at hc
    cases hidle : u.run.idle with
    | nil => simp [hidle] at hc
    | cons w idle =>
      cases l' with
      | nil => simp at hc
      | cons x l' =>
        obtain ⟨queue, hpop, hq⟩ := PendingQueue.pop_represents hcu.run.queue
        have hw : w ∈ u.run.executors := hcu.run.idleMem w (hidle ▸ List.mem_cons_self)
        refine ⟨dispatchedTo u queue x.entry w idle, ?_,
          ⟨⟨l', hdispatch hu hau hidle hq⟩, hau, htu⟩, ?_⟩
        · simp only [dispatchOne, bind, hpop, Option.bind_some, hidle, Item.link]
          rw [if_pos ⟨hw, (hcu.workers w).alive hw⟩]
          rfl
        · simp [dispatchedTo, State.setWorker]
  obtain ⟨t, hd, ⟨⟨l', hi⟩, -, htt⟩, hc⟩ := whileLoop_rule hround ⟨⟨l, hs⟩, ha, ht⟩ le_rfl
  refine ⟨t, l', hd, hi, fun _ => ⟨htt, ?_⟩⟩
  rw [(hcore hi).run.queue.isEmpty, Bool.and_eq_false_iff] at hc
  rcases hc with hc | hc
  · exact Or.inl (by simpa using hc)
  · exact Or.inr (by simpa using hc)

/-- What every round of the three loops keeps holds after them, and none of them panics. -/
theorem settle_rule
    (hretire : ∀ {s w idle}, I s l → Active s.run → s.run.idle = w :: idle →
      s.run.target < s.run.executors.card →
      I { s with run := { s.run with executors := s.run.executors.erase w, idle := idle } } l)
    (hspawn : ∀ {s}, I s l → Active s.run → s.run.executors.card < s.run.target → I (spawned s) l)
    (hdispatch : ∀ {s x l queue w idle}, I s (x :: l) → Active s.run →
      s.run.idle = w :: idle → PendingQueue.Represents cfg.priority queue l →
      I (dispatchedTo s queue x.entry w idle) l)
    (hs : I s l) :
    ∃ t l', settle s = some (endLoop (beginRetiring t)) ∧ I t l' ∧ Settled t.run l' := by
  have hrefill : ∃ t l', refill s = some t ∧ I t l' ∧ Settled t.run l' := by
    unfold refill
    split_ifs with hc
    · have ha : Active s.run := by
        rw [Bool.and_eq_true, Bool.not_eq_true'] at hc
        exact hc
      obtain ⟨t₁, h₁, ⟨hi₁, ha₁⟩, -⟩ := retireIdle_rule (I := I) hretire hs ha
      obtain ⟨t₂, h₂, ⟨hi₂, ha₂⟩, ht₂⟩ := spawnWorkers_rule hcore hspawn hi₁ ha₁
      obtain ⟨t₃, l', h₃, hi₃⟩ := dispatch_rule hcore hdispatch hi₂ ha₂ ht₂
      refine ⟨t₃, l', ?_, hi₃⟩
      simp only [bind, h₁, Option.bind_some, h₂, h₃]
    · refine ⟨s, l, rfl, hs, fun ha => absurd ?_ hc⟩
      rw [ha.1, ha.2]
      rfl
  obtain ⟨t, l', ht, hi⟩ := hrefill
  exact ⟨t, l', by rw [settle, ht]; rfl, hi⟩

end Loops

/-! ## The end of an iteration -/

/-- With nothing busy, every executor is idle. -/
theorem RunOk.idle_of_busy {run : Run} (h : RunOk cfg run l) (hb : run.busy = 0) {w : ℕ}
    (hw : w ∈ run.executors) : w ∈ run.idle := by
  have hsub : run.idle.toFinset ⊆ run.executors := fun v hv =>
    h.idleMem v (List.mem_toFinset.1 hv)
  have hcard : run.executors.card ≤ run.idle.toFinset.card := by
    rw [List.toFinset_card_of_nodup h.idleNodup, ← h.busy, hb, Nat.zero_add]
  rw [← Finset.eq_of_subset_of_card_le hsub hcard] at hw
  exact List.mem_toFinset.1 hw

theorem Core.retireAll (h : Core cfg s l) (hs : s.run.stopped = true)
    (hq : s.run.queue.isEmpty = true) (hb : s.run.busy = 0) :
    Core cfg { s with run := { s.run with retiring := true, executors := ∅, idle := [] } } l := by
  have hl : l = [] := by
    rw [h.run.queue.isEmpty] at hq
    exact List.isEmpty_iff.1 hq
  refine ⟨⟨h.run.queue, h.run.ids, List.nodup_nil, nofun, ?_, fun _ => ⟨hs, hl, rfl⟩⟩, fun v => ?_,
    h.adds⟩
  · change s.run.busy + 0 = 0
    rw [hb]
  · have hv := h.workers v
    have hload : (s.workers v).load + s.channel.count (.ready v) = 0 := by
      by_cases hm : v ∈ s.run.executors
      · exact hv.idle (h.run.idle_of_busy hb hm)
      · exact hv.gone hm
    exact ⟨fun _ => hload, fun hm => absurd hm (Finset.notMem_empty v), fun _ => hload,
      fun hm => absurd hm (Finset.notMem_empty v), fun hn => ⟨Finset.notMem_empty v, (hv.fresh hn).2⟩,
      hv.held⟩

theorem Core.beginRetiring (h : Core cfg s l) : Core cfg (beginRetiring s) l := by
  unfold QueuedPool.beginRetiring
  split_ifs with hc
  · simp only [Bool.and_eq_true, decide_eq_true_eq] at hc
    exact h.retireAll hc.1.1.1 hc.1.1.2 hc.1.2
  · exact h

/-- Closing the channel loses no report, because no executor is left to send one. -/
theorem Core.closeChannel (h : Core cfg s l) (hr : s.run.retiring = true) :
    Core cfg (closeChannel s) l := by
  refine ⟨h.run, fun v => ?_, h.adds.close⟩
  have hv := h.workers v
  have hgone := hv.gone (by rw [(h.run.retiring hr).2.2]; exact Finset.notMem_empty v)
  have hexec : v ∉ s.run.executors := by
    rw [(h.run.retiring hr).2.2]
    exact Finset.notMem_empty v
  have hzero : (s.workers v).load + 0 = 0 := by omega
  exact ⟨fun _ => hzero, fun hm => absurd hm hexec, fun _ => hzero, fun hm => absurd hm hexec,
    hv.fresh, hv.held⟩

/-- The parts of a state that `settle` does not write, apart from the reply channels. -/
structure Calm (s t : State) : Prop where
  launched : t.launched = s.launched
  drained : t.drained = s.drained
  stops : t.stops = s.stops

theorem Kept.calm {s t : State} (h : Kept s t) : Calm s t := by
  rw [h.rest]
  exact ⟨rfl, rfl, rfl⟩

theorem beginRetiring_calm (s : State) : Calm s (beginRetiring s) := by
  unfold beginRetiring
  split_ifs <;> exact ⟨rfl, rfl, rfl⟩

/-- The end of an iteration finds the actor at its next `select!`, or `run` has returned. -/
theorem Ok.endLoop (h : Core cfg s l) (hl : s.launched = true) (hd : s.drained = false)
    (hst : ∀ i, s.stops i ≠ .returned) : Ok cfg (endLoop s) l := by
  unfold QueuedPool.endLoop
  split_ifs with hc
  · have hcl := h.closeChannel hc.1
    exact ⟨⟨hcl.run, hcl.workers, hcl.adds⟩, ⟨hl, hc.1, rfl⟩,
      fun hc => absurd (hd.symm.trans hc) nofun, fun i hi => absurd hi (hst i)⟩
  · exact ⟨⟨h.run, h.workers, h.adds⟩, hl, fun hc => absurd (hd.symm.trans hc) nofun, fun i hi => absurd hi (hst i)⟩

theorem Kept.endLoop {t : State} (hk : Kept s t) (hc : Core cfg t l) (hl : s.launched = true)
    (hd : s.drained = false) (hst : ∀ i, s.stops i ≠ .returned) :
    Ok cfg (QueuedPool.endLoop (QueuedPool.beginRetiring t)) l := by
  have hb := beginRetiring_calm t
  refine Ok.endLoop hc.beginRetiring ?_ ?_ ?_
  · rw [hb.launched, hk.calm.launched, hl]
  · rw [hb.drained, hk.calm.drained, hd]
  · rw [hb.stops, hk.calm.stops]
    exact hst

/-- **An iteration never panics**, and keeps the invariant. -/
theorem Core.settle (h : Core cfg s l) (hl : s.launched = true) (hd : s.drained = false)
    (hst : ∀ i, s.stops i ≠ .returned) : ∃ t l', settle s = some t ∧ Ok cfg t l' := by
  obtain ⟨t, l', ht, ⟨hc, hk⟩, -⟩ := settle_rule (I := fun t l => Core cfg t l ∧ Kept s t)
    (fun h => h.1)
    (fun h _ hi _ => ⟨h.1.retire hi, h.2.trans ⟨rfl, rfl⟩⟩)
    (fun h ha _ => ⟨h.1.spawn ha.2, h.2.trans ⟨rfl, rfl⟩⟩)
    (fun h _ hi hq => ⟨h.1.dispatch hi hq, h.2.trans ⟨rfl, rfl⟩⟩) ⟨h, Kept.refl s⟩
  exact ⟨_, l', ht, hk.endLoop hc hl hd hst⟩

/-! ## Commands -/

/-- A command that is no report is taken from the channel. -/
theorem WorkersOk.take {c : Command} {channel : List Command} (h : WorkersOk s)
    (hc : s.channel = c :: channel) (hn : ∀ w, c ≠ .ready w) :
    WorkersOk { s with channel := channel } := by
  intro v
  have hv := h v
  rw [hc, List.count_cons_of_ne (hn v)] at hv
  exact hv

theorem Calm.refl (s : State) : Calm s s := ⟨rfl, rfl, rfl⟩

/-- An `Add` that is turned down. -/
theorem Core.reject {context : ℕ} {priority : Int32} {task : ℕ} {channel : List Command}
    (h : Core cfg s l) (hc : s.channel = .add context priority task :: channel)
    (e : RuntimeError) : Core cfg (State.reply { s with channel := channel } task (.error e)) l := by
  have hadds := h.adds
  rw [hc] at hadds
  have hans := hadds.answer (.error e)
  rw [if_neg nofun] at hans
  exact ⟨h.run, h.workers.take hc nofun, hans⟩

/-- An `Add` that is queued. -/
theorem Core.accept {context : ℕ} {priority : Int32} {task : ℕ} {channel : List Command}
    (h : Core cfg s l) (hc : s.channel = .add context priority task :: channel)
    (hs : s.run.stopped = false) :
    ∃ queue, s.run.queue.push s.run.nextId priority ⟨task, s.run.nextId⟩ = some queue ∧
      Core cfg (State.reply { s with channel := channel, run := { s.run with
        nextId := s.run.nextId + 1
        cancellations := s.run.cancellations ++ [⟨s.run.nextId, context, false⟩]
        queue := queue } } task (.ok ()))
      (Waiting.push cfg.priority l ⟨s.run.nextId, priority, ⟨task, s.run.nextId⟩⟩) := by
  have hnew : s.run.nextId ∉ l.map Item.id := by
    intro hm
    obtain ⟨y, hy, he⟩ := List.mem_map.1 hm
    have := h.run.ids y hy
    omega
  have hperm := Waiting.push_perm cfg.priority l ⟨s.run.nextId, priority, ⟨task, s.run.nextId⟩⟩
  obtain ⟨queue, hpush, hq⟩ := PendingQueue.push_represents h.run.queue
    ⟨s.run.nextId, priority, ⟨task, s.run.nextId⟩⟩ hnew
  have hadds := h.adds
  rw [hc] at hadds
  have hans := hadds.answer (.ok ())
  rw [if_pos rfl] at hans
  have hw := h.workers.take hc nofun
  refine ⟨queue, hpush, ⟨hq, fun y hy => ?_, h.run.idleNodup, h.run.idleMem, h.run.busy, fun hr => ?_⟩,
    fun v => ⟨(hw v).idle, (hw v).busy, (hw v).gone, (hw v).alive, (hw v).fresh, (hw v).held⟩,
    hans.perm ?_⟩
  · change y.id < s.run.nextId + 1
    rcases List.mem_cons.1 (hperm.mem_iff.1 hy) with rfl | hy
    · exact Nat.lt_succ_self _
    · exact Nat.lt_succ_of_lt (h.run.ids y hy)
  · exact absurd ((h.run.retiring hr).1.symm.trans hs) nofun
  · exact (hperm.map fun x => x.entry.task).append_right _

/-- A worker reports and is idle again; the subtraction does not underflow. -/
theorem Core.report {w : ℕ} {channel : List Command} (h : Core cfg s l)
    (hc : s.channel = .ready w :: channel) :
    s.run.busy ≠ 0 ∧
      Core cfg { s with channel := channel, run := { s.run with
        busy := s.run.busy - 1, idle := s.run.idle ++ [w] } } l := by
  have hw := h.workers w
  have hcount : s.channel.count (.ready w) = channel.count (.ready w) + 1 := by
    rw [hc, List.count_cons_self]
  have hexec : w ∈ s.run.executors := by
    by_contra hn
    have := hw.gone hn
    omega
  have hidle : w ∉ s.run.idle := by
    intro hm
    have := hw.idle hm
    omega
  have hload := hw.busy hexec hidle
  have hlt : s.run.idle.length < s.run.executors.card := by
    rw [← List.toFinset_card_of_nodup h.run.idleNodup]
    refine Finset.card_lt_card ⟨fun v hv => h.run.idleMem v (List.mem_toFinset.1 hv), fun hsub => ?_⟩
    exact hidle (List.mem_toFinset.1 (hsub hexec))
  have hbusy := h.run.busy
  have hpos : s.run.busy ≠ 0 := by omega
  refine ⟨hpos, ⟨h.run.queue, h.run.ids, ?_, fun v hv => ?_, ?_, fun hr => ?_⟩, fun v => ?_, ?_⟩
  · change (s.run.idle ++ [w]).Nodup
    rw [List.nodup_append]
    exact ⟨h.run.idleNodup, List.nodup_singleton _, fun a ha b hb hab =>
      hidle (List.mem_singleton.1 hb ▸ hab ▸ ha)⟩
  · rcases List.mem_append.1 hv with hv | hv
    · exact h.run.idleMem v hv
    · exact List.mem_singleton.1 hv ▸ hexec
  · change s.run.busy - 1 + (s.run.idle ++ [w]).length = s.run.executors.card
    rw [List.length_append, List.length_singleton]
    omega
  · rw [(h.run.retiring hr).2.2] at hexec
    exact absurd hexec (Finset.notMem_empty w)
  · have hv := h.workers v
    by_cases he : v = w
    · subst he
      have hzero : (s.workers v).load + channel.count (.ready v) = 0 := by omega
      refine ⟨fun _ => hzero, fun _ hn => ?_, fun hn => absurd hexec hn, hv.alive, hv.fresh, hv.held⟩
      exact absurd (List.mem_append_right _ (List.mem_singleton_self _)) hn
    · have hcv : s.channel.count (.ready v) = channel.count (.ready v) := by
        rw [hc, List.count_cons_of_ne fun hc => he (Command.ready.inj hc).symm]
      rw [hcv] at hv
      have hid : v ∈ s.run.idle ++ [w] ↔ v ∈ s.run.idle := by
        rw [List.mem_append, List.mem_singleton, or_iff_left he]
      exact ⟨fun hm => hv.idle (hid.1 hm), fun hm hn => hv.busy hm fun hc => hn (hid.2 hc), hv.gone,
        hv.alive, hv.fresh, hv.held⟩
  · have hadds := h.adds
    rw [hc] at hadds
    exact hadds.congr_channel rfl

/-- A command that only sets variables of the actor. -/
theorem Core.flags {c : Command} {channel : List Command} (h : Core cfg s l)
    (hc : s.channel = c :: channel) (hn : c.task = none) (hw : ∀ w, c ≠ .ready w) {run : Run}
    (hrun : run = { s.run with target := run.target, started := run.started, stopped := run.stopped })
    (hs : s.run.stopped = true → run.stopped = true) :
    Core cfg { s with channel := channel, run := run } l := by
  have hadds := h.adds
  rw [hc] at hadds
  have hworkers := h.workers.take hc hw
  rw [hrun]
  refine ⟨⟨h.run.queue, h.run.ids, h.run.idleNodup, h.run.idleMem, h.run.busy, fun hr => ?_⟩,
    fun v => ?_, hadds.congr_channel ?_⟩
  · obtain ⟨h₁, h₂⟩ := h.run.retiring hr
    exact ⟨hs h₁, h₂⟩
  · have hv := hworkers v
    exact ⟨hv.idle, hv.busy, hv.gone, hv.alive, hv.fresh, hv.held⟩
  · exact (List.filterMap_cons_none hn).symm

/-- **Handling a command never panics.** -/
theorem Core.handle {c : Command} {channel : List Command} (h : Core cfg s l)
    (hc : s.channel = c :: channel) :
    ∃ t l', handle cfg { s with channel := channel } (some c) = some t ∧ Core cfg t l' ∧
      Calm s t := by
  cases c with
  | add context priority task =>
    by_cases hs : s.run.stopped = true
    · exact ⟨_, l, if_pos hs, h.reject hc _, ⟨rfl, rfl, rfl⟩⟩
    by_cases hx : s.cancelled context = true
    · exact ⟨_, l, (if_neg hs).trans (if_pos hx), h.reject hc _, ⟨rfl, rfl, rfl⟩⟩
    obtain ⟨queue, hpush, hcore⟩ := h.accept hc (by simpa using hs)
    refine ⟨_, _, (if_neg hs).trans ((if_neg hx).trans ?_), hcore, ⟨rfl, rfl, rfl⟩⟩
    simp only [bind, hpush, Option.bind_some]
  | start count =>
    by_cases hs : s.run.stopped = true
    · exact ⟨_, l, if_pos hs, h.flags hc rfl nofun rfl id, ⟨rfl, rfl, rfl⟩⟩
    · exact ⟨_, l, if_neg hs, h.flags hc rfl nofun rfl id, ⟨rfl, rfl, rfl⟩⟩
  | resize count =>
    by_cases hs : s.run.stopped = true
    · exact ⟨_, l, if_pos hs, h.flags hc rfl nofun rfl id, ⟨rfl, rfl, rfl⟩⟩
    · exact ⟨_, l, if_neg hs, h.flags hc rfl nofun rfl id, ⟨rfl, rfl, rfl⟩⟩
  | stop => exact ⟨_, l, rfl, h.flags hc rfl nofun rfl fun _ => rfl, ⟨rfl, rfl, rfl⟩⟩
  | ready w =>
    obtain ⟨hb, hcore⟩ := h.report hc
    exact ⟨_, l, if_neg hb, hcore, ⟨rfl, rfl, rfl⟩⟩

/-! ## Steps of the actor -/

/-- While the actor is in its `select!`, nothing is drained and no `stop` has returned. -/
theorem Ok.selecting (h : Ok cfg s l) {b : Branch} {d : Bool} (ha : s.actor = .select b d) :
    s.launched = true ∧ s.drained = false ∧ ∀ i, s.stops i ≠ .returned := by
  have hl := h.actor
  rw [ActorOk, ha] at hl
  have hd : s.drained = false := by
    by_contra hd
    have := h.drained (by simpa using hd)
    rw [ha] at this
    cases this
  refine ⟨hl, hd, fun i hi => ?_⟩
  exact absurd (hd.symm.trans (h.stops i hi)) nofun

/-- The actor goes on to another branch. -/
theorem Ok.poll (h : Ok cfg s l) {b : Branch} {d : Bool} (ha : s.actor = .select b d) (b' : Branch)
    (d' : Bool) : Ok cfg { s with actor := .select b' d' } l := by
  obtain ⟨hl, hd, -⟩ := h.selecting ha
  exact ⟨⟨h.core.run, h.core.workers, h.core.adds⟩, hl,
    fun hc => absurd (hd.symm.trans hc) nofun, h.stops⟩

/-- What is done with the queue and the cancellations alone. -/
theorem Core.queue (h : Core cfg s l) {queue : PendingQueue Entry} {l' : List (Item Entry)}
    (hq : PendingQueue.Represents cfg.priority queue l')
    (hp : (l'.map Item.link).Perm (l.map Item.link)) (cancellations : List Cancellation)
    (workers : Finset ℕ) :
    Core cfg { s with run := { s.run with
      queue := queue, cancellations := cancellations, workers := workers } } l' := by
  have hids : (l'.map Item.id).Perm (l.map Item.id) := by
    have := hp.map Prod.fst
    rwa [PendingQueue.map_fst_link, PendingQueue.map_fst_link] at this
  have htasks : (l'.map fun x => x.entry.task).Perm (l.map fun x => x.entry.task) := by
    have := hp.map fun x => x.2.task
    rwa [List.map_map, List.map_map] at this
  refine ⟨⟨hq, fun x hx => ?_, h.run.idleNodup, h.run.idleMem, h.run.busy, fun hr => ?_⟩,
    fun v => ?_, h.adds.perm (htasks.append_right _)⟩
  · obtain ⟨y, hy, he⟩ := List.mem_map.1 (hids.mem_iff.1 (List.mem_map_of_mem hx))
    rw [← he]
    exact h.run.ids y hy
  · obtain ⟨h₁, rfl, h₃⟩ := h.run.retiring hr
    exact ⟨h₁, List.map_eq_nil_iff.1 hp.eq_nil, h₃⟩
  · have hv := h.workers v
    exact ⟨hv.idle, hv.busy, hv.gone, hv.alive, hv.fresh, hv.held⟩

theorem Ok.pollCancellations {t : State} (h : Ok cfg s l) {k : Option ℕ} {d : Bool}
    (ha : s.actor = .select .cancellations d)
    (hs : QueuedPool.pollCancellations s k d = some t) : ∃ l', Ok cfg t l' := by
  obtain ⟨hl, hd, hst⟩ := h.selecting ha
  unfold QueuedPool.pollCancellations at hs
  by_cases hdis : (d || s.run.cancellations.isEmpty) = true
  · rw [if_pos hdis] at hs
    split_ifs at hs
    cases hs
    exact ⟨l, h.poll ha _ _⟩
  rw [if_neg hdis] at hs
  cases k with
  | none =>
    simp only at hs
    split_ifs at hs
    cases hs
    exact ⟨l, h.poll ha _ _⟩
  | some k =>
    simp only [bind, Option.bind_eq_some_iff] at hs
    obtain ⟨c, -, hs⟩ := hs
    by_cases hab : c.aborted = true
    · rw [if_pos hab] at hs
      cases hs
      have hc := h.core.queue h.core.run.queue (List.Perm.refl _)
        (s.run.cancellations.eraseIdx k) s.run.workers
      exact ⟨l, ⟨hc.run, hc.workers, hc.adds⟩, hl, fun hc => absurd (hd.symm.trans hc) nofun, h.stops⟩
    · rw [if_neg hab] at hs
      split_ifs at hs
      cases hs
      obtain ⟨queue, hpr, hq⟩ := PendingQueue.promote_represents h.core.run.queue c.id
      have hp := Waiting.promote_perm cfg.priority l h.core.run.queue.nodup c.id
      have hc := h.core.queue hq hp (s.run.cancellations.eraseIdx k) s.run.workers
      obtain ⟨t, l', ht, hok⟩ := hc.settle hl hd hst
      refine ⟨l', ?_⟩
      simp only [hpr, Option.bind_some, ht]
      exact hok

theorem Ok.recv (h : Ok cfg s l) {d : Bool} {c : Command} {channel : List Command}
    (ha : s.actor = .select .commands d) (hc : s.channel = c :: channel) :
    ∃ l', Ok cfg (orPanic { s with channel := channel }
      ((QueuedPool.handle cfg { s with channel := channel } (some c)).bind QueuedPool.settle)) l' := by
  obtain ⟨hl, hd, hst⟩ := h.selecting ha
  obtain ⟨t, l₁, ht, hcore, hcalm⟩ := h.core.handle hc
  obtain ⟨u, l₂, hu, hok⟩ := hcore.settle (hcalm.launched.trans hl) (hcalm.drained.trans hd)
    (by rw [hcalm.stops]; exact hst)
  refine ⟨l₂, ?_⟩
  rw [ht, Option.bind_some, hu]
  exact hok

theorem Ok.join (h : Ok cfg s l) {d : Bool} (ha : s.actor = .select .workers d) (w : ℕ) :
    ∃ l', Ok cfg (orPanic { s with run := { s.run with workers := s.run.workers.erase w } }
      (QueuedPool.settle { s with run := { s.run with workers := s.run.workers.erase w } })) l' := by
  obtain ⟨hl, hd, hst⟩ := h.selecting ha
  have hc := h.core.queue h.core.run.queue (List.Perm.refl _) s.run.cancellations
    (s.run.workers.erase w)
  obtain ⟨t, l', ht, hok⟩ := hc.settle hl hd hst
  refine ⟨l', ?_⟩
  rw [ht]
  exact hok

/-- The first thing the actor does is to reset its variables, which nobody has touched. -/
theorem Ok.enterRun (h : Ok cfg s l) (ha : s.actor = .spawned) (target : ℕ) :
    Ok cfg { s with run := .new cfg target, actor := .select .cancellations false } l := by
  have hact := h.actor
  rw [ActorOk, ha] at hact
  obtain ⟨hl, target', hrun⟩ := hact
  have hd : s.drained = true → False := fun hd => by
    have := h.drained hd
    rw [ha] at this
    cases this
  obtain ⟨⟨hq, hids, hn, hm, hb, hr⟩, hw, hadds⟩ := h.core
  rw [hrun] at hq hids hn hm hb hr
  refine ⟨⟨⟨hq, hids, hn, hm, hb, hr⟩, fun v => ?_, hadds⟩, hl, fun hc => (hd hc).elim, h.stops⟩
  have hv := hw v
  rw [hrun] at hv
  exact ⟨hv.idle, hv.busy, hv.gone, hv.alive, hv.fresh, hv.held⟩

theorem Ok.publishDrained (h : Ok cfg s l) (ha : s.actor = .returned) :
    Ok cfg { s with drained := true, actor := .drained } l := by
  have hact := h.actor
  rw [ActorOk, ha] at hact
  exact ⟨⟨h.core.run, h.core.workers, h.core.adds⟩, hact, fun _ => rfl, fun _ _ => rfl⟩

/-! ## Steps of callers -/

theorem Ok.launch (h : Ok cfg s l) : Ok cfg (launch s) l := by
  unfold QueuedPool.launch
  split_ifs with hl
  · exact h
  · have hact := h.actor
    unfold ActorOk at hact
    cases ha : s.actor with
    | absent =>
      rw [ha] at hact
      refine ⟨⟨h.core.run, h.core.workers, h.core.adds⟩, ⟨rfl, hact.2⟩, fun hd => ?_, h.stops⟩
      have := h.drained hd
      rw [ha] at this
      cases this
    | spawned | returned | drained =>
      rw [ha] at hact
      exact absurd hact.1 hl
    | select _ _ =>
      rw [ha] at hact
      exact absurd hact hl
    | panicked =>
      rw [ha] at hact
      exact hact.elim

theorem send_eq_some {t : State} {c : Command} (h : send s c = some t) :
    s.actor.open = true ∧ t = { s with channel := s.channel ++ [c] } := by
  unfold send at h
  split_ifs at h with ho
  exact ⟨ho, (Option.some.inj h).symm⟩

/-- A channel that is open may hold any commands. -/
theorem ActorOk.channel (h : ActorOk cfg s) (ho : s.actor.open = true) (channel : List Command) :
    ActorOk cfg { s with channel := channel } := by
  unfold ActorOk at h ⊢
  cases ha : s.actor with
  | absent | spawned | select _ _ | panicked =>
    rw [ha] at h
    exact h
  | returned | drained => simp [ha, Actor.open] at ho

theorem ActorOk.retiring (h : ActorOk cfg s) (hc : s.actor.open = false) :
    s.run.retiring = true := by
  unfold ActorOk at h
  cases ha : s.actor with
  | absent | spawned | select _ _ => simp [ha, Actor.open] at hc
  | returned | drained =>
    rw [ha] at h
    exact h.2.1
  | panicked =>
    rw [ha] at h
    exact h.elim

/-- A command that is no report is put into the channel. -/
theorem WorkersOk.append (h : WorkersOk s) {c : Command} (hw : ∀ w, c ≠ .ready w) :
    WorkersOk { s with channel := s.channel ++ [c] } := by
  intro v
  have hv := h v
  have hcount : (s.channel ++ [c]).count (.ready v) = s.channel.count (.ready v) := by
    rw [List.count_append, List.count_singleton, if_neg (by simpa using hw v), Nat.add_zero]
  change WorkerOk _ _ ((s.channel ++ [c]).count (.ready v)) _ _ v
  rw [hcount]
  exact hv

/-- A command that is neither `Add` nor `Ready` is sent. -/
theorem Ok.send (h : Ok cfg s l) {t : State} {c : Command} (hs : send s c = some t)
    (hn : c.task = none) (hw : ∀ w, c ≠ .ready w) : Ok cfg t l := by
  obtain ⟨ho, rfl⟩ := send_eq_some hs
  refine ⟨⟨h.core.run, h.core.workers.append hw, h.core.adds.congr_channel ?_⟩,
    h.actor.channel ho _, h.drained, h.stops⟩
  change addsIn (s.channel ++ [c]) = addsIn s.channel
  rw [addsIn, List.filterMap_append, List.filterMap_cons_none hn]
  simp

/-- An `add_task` call goes on. -/
theorem Ok.gotoAdd (h : Ok cfg s l) {i : ℕ} {c : AddCall} (hr : c.reply = (s.adds i).reply)
    (hc : CallOk c (i ∈ addsIn s.channel)) : Ok cfg (s.setAdd i c) l :=
  ⟨⟨h.core.run, h.core.workers, h.core.adds.goto hr hc⟩, h.actor, h.drained, h.stops⟩

theorem Ok.sendAdd (h : Ok cfg s l) {i : ℕ} {context : ℕ} {priority : Int32} {t : State}
    (hpc : (s.adds i).pc = .launched) (hs : QueuedPool.send s (.add context priority i) = some t) :
    Ok cfg (t.setAdd i { s.adds i with pc := .waiting }) l := by
  obtain ⟨ho, rfl⟩ := send_eq_some hs
  have hcall := h.core.adds.call i
  rw [CallOk, hpc] at hcall
  exact ⟨⟨h.core.run, h.core.workers.append nofun, h.core.adds.send rfl hcall.1 rfl hcall.2⟩,
    h.actor.channel ho _, h.drained, h.stops⟩

theorem launch_adds (s : State) : (launch s).adds = s.adds ∧ (launch s).channel = s.channel := by
  unfold launch
  split_ifs <;> exact ⟨rfl, rfl⟩

theorem Ok.stepAdd (h : Ok cfg s l) {t : State} {i : ℕ} (hs : stepAdd cfg s i = some t) :
    Ok cfg t l := by
  have hcall := h.core.adds.call i
  unfold CallOk at hcall
  unfold QueuedPool.stepAdd at hs
  cases hpc : (s.adds i).pc <;> simp only [hpc, reduceCtorEq] at hs hcall
  case called =>
    split_ifs at hs <;> cases hs
    · exact h.gotoAdd rfl ⟨by rw [hcall.1]; exact nofun, hcall.2⟩
    · exact h.gotoAdd rfl hcall
  case checked =>
    split_ifs at hs <;> cases hs
    · exact h.gotoAdd rfl ⟨by rw [hcall.1]; exact nofun, hcall.2⟩
    · exact h.gotoAdd rfl hcall
  case loaded =>
    cases hs
    obtain ⟨hadds, hchannel⟩ := launch_adds s
    exact h.launch.gotoAdd (by rw [hadds]) (by rw [hchannel]; exact hcall)
  case launched =>
    cases hsend : QueuedPool.send s (.add (s.adds i).context (s.adds i).priority i) with
    | some u =>
      rw [hsend] at hs
      cases hs
      exact h.sendAdd hpc hsend
    | none =>
      rw [hsend] at hs
      cases hs
      exact h.gotoAdd rfl ⟨by rw [hcall.1]; exact nofun, hcall.2⟩
  case waiting =>
    have hnot : (s.adds i).reply ≠ .pending → i ∉ addsIn s.channel := fun hn hm =>
      hn (h.core.adds.pending i hm)
    cases hr : (s.adds i).reply with
    | pending => simp [hr] at hs
    | sent result =>
      simp only [hr, Option.some.injEq] at hs
      subst hs
      cases result with
      | ok _ => exact h.gotoAdd hr.symm rfl
      | error e => exact h.gotoAdd hr.symm ⟨nofun, hnot (by rw [hr]; exact nofun)⟩
    | closed =>
      simp only [hr, Option.some.injEq] at hs
      subst hs
      exact h.gotoAdd hr.symm ⟨nofun, hnot (by rw [hr]; exact nofun)⟩

theorem Ok.setStart (h : Ok cfg s l) (state : Lifecycle) (starts : ℕ → StartPc) :
    Ok cfg { s with state := state, starts := starts } l :=
  ⟨⟨h.core.run, h.core.workers, h.core.adds⟩, h.actor, h.drained, h.stops⟩

theorem Ok.stepStart (h : Ok cfg s l) {t : State} {i : ℕ} {configured : Option ℕ}
    (hs : stepStart cfg s i configured = some t) : Ok cfg t l := by
  unfold QueuedPool.stepStart at hs
  cases hpc : s.starts i <;> simp only [hpc, reduceCtorEq] at hs
  case called =>
    cases hst : s.state <;> simp only [hst, Option.some.injEq] at hs <;> subst hs <;>
      exact h.setStart _ _
  case claimed =>
    cases hs
    exact h.launch.setStart _ _
  case launched =>
    cases hsend : QueuedPool.send s (.start (executors cfg configured)) with
    | some u =>
      simp only [hsend, Option.some.injEq] at hs
      subst hs
      exact (h.send hsend rfl nofun).setStart _ _
    | none =>
      simp only [hsend, Option.some.injEq] at hs
      subst hs
      exact h.setStart _ _

/-- A `stop` call goes on; it may only return from a drained pool. -/
theorem Ok.setStop (h : Ok cfg s l) {i : ℕ} {pc : StopPc} (state : Lifecycle)
    (hpc : pc = .returned → s.drained = true) :
    Ok cfg { s with state := state, stops := Function.update s.stops i pc } l := by
  refine ⟨⟨h.core.run, h.core.workers, h.core.adds⟩, h.actor, h.drained, fun j hj => ?_⟩
  change Function.update s.stops i pc j = .returned at hj
  by_cases he : j = i
  · subst he
    rw [Function.update_self] at hj
    exact hpc hj
  · rw [Function.update_of_ne he] at hj
    exact h.stops j hj

theorem launch_stops (s : State) : (launch s).stops = s.stops ∧ (launch s).state = s.state := by
  unfold launch
  split_ifs <;> exact ⟨rfl, rfl⟩

theorem Ok.stepStop (h : Ok cfg s l) {t : State} {i : ℕ} (hs : stepStop s i = some t) :
    Ok cfg t l := by
  unfold QueuedPool.stepStop at hs
  cases hpc : s.stops i <;> simp only [hpc, reduceCtorEq] at hs
  case called =>
    cases hs
    obtain ⟨hst, hstate⟩ := launch_stops s
    rw [← hst]
    exact h.launch.setStop (QueuedPool.launch s).state nofun
  case launched =>
    cases hs
    refine h.setStop _ fun hc => ?_
    split_ifs at hc
  case sending =>
    cases hs
    cases hsend : QueuedPool.send s .stop with
    | some u =>
      have hst : u.stops = s.stops := by rw [(send_eq_some hsend).2]
      rw [← hst]
      exact (h.send hsend rfl nofun).setStop u.state nofun
    | none => exact h.setStop s.state nofun
  case waiting =>
    split_ifs at hs with hd
    cases hs
    exact h.setStop s.state fun _ => hd

/-! ## Steps of workers -/

/-- One worker changes its state, its reports in the channel, or what it has run. -/
theorem WorkersOk.setWorker {t : State} (h : WorkersOk s) {w : ℕ} {x : Worker}
    (hrun : t.run = s.run) (hd : t.dispatched = s.dispatched)
    (hworkers : t.workers = Function.update s.workers w x)
    (hcount : ∀ v ≠ w, t.channel.count (.ready v) = s.channel.count (.ready v))
    (hfin : ∀ v ≠ w, finishedBy t.finished v = finishedBy s.finished v)
    (hw : WorkerOk s.run x (t.channel.count (.ready w)) (handedTo s.dispatched w)
      (finishedBy t.finished w) w) : WorkersOk t := by
  intro v
  rw [hrun, hd, hworkers]
  by_cases he : v = w
  · subst he
    rw [Function.update_self]
    exact hw
  · rw [Function.update_of_ne he, hcount v he, hfin v he]
    exact h v

theorem finishedBy_append (finished : List (ℕ × ℕ)) (task w v : ℕ) :
    finishedBy (finished ++ [(task, w)]) v =
      if w = v then finishedBy finished v ++ [task] else finishedBy finished v := by
  unfold finishedBy
  rw [List.filter_append, List.map_append]
  by_cases h : w = v
  · simp [h]
  · simp [h]

/-- A worker that has moved since it was spawned is not fresh. -/
theorem WorkerOk.not_fresh {run : Run} {x : Worker} {readies : ℕ} {handed finished : List ℕ}
    {w : ℕ} (h : WorkerOk run x readies handed finished w) (hx : x.pc ≠ .unborn) :
    ¬run.nextWorker ≤ w := by
  intro hn
  rw [(h.fresh hn).2] at hx
  exact hx rfl

theorem Ok.stepWorker (h : Ok cfg s l) {t : State} {w : ℕ} (hs : stepWorker s w = some t) :
    Ok cfg t l := by
  have hw := h.core.workers w
  have hid := hw.idle
  have hbu := hw.busy
  have hgo := hw.gone
  have hhe := hw.held
  unfold Worker.load at hid hbu hgo
  unfold Worker.held at hhe
  unfold QueuedPool.stepWorker at hs
  cases hpc : (s.workers w).pc <;> simp only [hpc, reduceCtorEq] at hs hid hbu hgo hhe
  case receiving =>
    have hfresh := hw.not_fresh (by rw [hpc]; exact nofun)
    cases hin : (s.workers w).inbox with
    | nil =>
      simp only [hin] at hs hid hbu hgo hhe
      split_ifs at hs with hx
      cases hs
      exact ⟨⟨h.core.run, h.core.workers.setWorker rfl rfl rfl (fun _ _ => rfl) (fun _ _ => rfl)
        ⟨hid, hbu, hgo, fun hc => absurd hc hx, fun hc => absurd hc hfresh, hhe⟩, h.core.adds⟩,
        h.actor, h.drained, h.stops⟩
    | cons task inbox =>
      simp only [hin, Option.some.injEq, List.length_cons] at hs hid hbu hgo hhe
      subst hs
      refine ⟨⟨h.core.run, h.core.workers.setWorker rfl rfl rfl (fun _ _ => rfl) (fun _ _ => rfl)
        ⟨fun hc => ?_, fun hc hn => ?_, fun hc => ?_, fun _ => nofun, fun hc => absurd hc hfresh, hhe⟩,
        h.core.adds⟩, h.actor, h.drained, h.stops⟩
      · have := hid hc
        omega
      · have := hbu hc hn
        change inbox.length + 1 + s.channel.count (.ready w) = 1
        omega
      · have := hgo hc
        omega
  case running task =>
    have hfresh := hw.not_fresh (by rw [hpc]; exact nofun)
    cases hs
    refine ⟨⟨h.core.run, h.core.workers.setWorker rfl rfl rfl (fun _ _ => rfl) (fun v hv => ?_)
      ⟨hid, hbu, hgo, fun _ => nofun, fun hc => absurd hc hfresh, ?_⟩, h.core.adds⟩, h.actor,
      h.drained, h.stops⟩
    · change finishedBy (s.finished ++ [(task, w)]) v = _
      rw [finishedBy_append, if_neg fun hc => hv hc.symm]
    · change _ = finishedBy (s.finished ++ [(task, w)]) w ++ _
      rw [finishedBy_append, if_pos rfl, hhe, List.append_assoc]
      rfl
  case reporting =>
    have hfresh := hw.not_fresh (by rw [hpc]; exact nofun)
    cases hsend : QueuedPool.send s (.ready w) with
    | some u =>
      simp only [hsend, Option.some.injEq] at hs
      subst hs
      obtain ⟨ho, rfl⟩ := send_eq_some hsend
      have hcount : (s.channel ++ [Command.ready w]).count (.ready w) =
          s.channel.count (.ready w) + 1 := by
        rw [List.count_append, List.count_singleton_self]
      have hadds : addsIn (s.channel ++ [Command.ready w]) = addsIn s.channel := by
        simp [addsIn, Command.task]
      refine ⟨⟨h.core.run, h.core.workers.setWorker rfl rfl rfl (fun v hv => ?_) (fun _ _ => rfl)
        ?_, h.core.adds.congr_channel hadds⟩, h.actor.channel ho _, h.drained, h.stops⟩
      · change (s.channel ++ [Command.ready w]).count (.ready v) = _
        rw [List.count_append, List.count_singleton, if_neg, Nat.add_zero]
        simpa using fun hc => hv hc.symm
      · change WorkerOk _ _ ((s.channel ++ [Command.ready w]).count (.ready w)) _ _ w
        rw [hcount]
        refine ⟨fun hc => ?_, fun hc hn => ?_, fun hc => ?_, fun _ => nofun, fun hc => absurd hc hfresh,
          hhe⟩
        · have := hid hc
          omega
        · have := hbu hc hn
          change (s.workers w).inbox.length + 0 + (s.channel.count (.ready w) + 1) = 1
          omega
        · have := hgo hc
          omega
    | none =>
      -- the receiver outlives every executor that has something to report
      have hclosed : s.actor.open = false := by
        unfold QueuedPool.send at hsend
        split_ifs at hsend with ho
        simpa using ho
      have hexec := (h.core.run.retiring (h.actor.retiring hclosed)).2.2
      have := hgo (by rw [hexec]; exact Finset.notMem_empty w)
      omega

/-! ## Every step -/

/-- **One step.** -/
theorem Ok.step (h : Ok cfg s l) {t : State} {a : Action} (hs : step cfg s a = some t) :
    ∃ l', Ok cfg t l' := by
  cases a with
  | cancel c =>
    cases hs
    exact ⟨l, ⟨h.core.run, h.core.workers, h.core.adds⟩, h.actor, h.drained, h.stops⟩
  | addTask i context priority =>
    simp only [QueuedPool.step] at hs
    split_ifs at hs with hpc
    cases hs
    have hcall := h.core.adds.call i
    rw [CallOk, hpc] at hcall
    exact ⟨l, h.gotoAdd hcall.1.symm ⟨rfl, hcall.2⟩⟩
  | stepAdd i => exact ⟨l, h.stepAdd hs⟩
  | dropAdd i =>
    simp only [QueuedPool.step] at hs
    split_ifs at hs with hpc
    cases hs
    exact ⟨l, h.gotoAdd rfl trivial⟩
  | start i =>
    simp only [QueuedPool.step] at hs
    split_ifs at hs
    cases hs
    exact ⟨l, h.setStart _ _⟩
  | stepStart i configured => exact ⟨l, h.stepStart hs⟩
  | reloadConfig configured =>
    simp only [QueuedPool.step, Option.some.injEq] at hs
    subst hs
    cases hsend : QueuedPool.send s (.resize (executors cfg configured)) with
    | some u => exact ⟨l, h.send hsend rfl nofun⟩
    | none => exact ⟨l, h⟩
  | stop i =>
    simp only [QueuedPool.step] at hs
    split_ifs at hs
    cases hs
    exact ⟨l, h.setStop s.state nofun⟩
  | stepStop i => exact ⟨l, h.stepStop hs⟩
  | dropStop i =>
    simp only [QueuedPool.step] at hs
    split_ifs at hs
    cases hs
    exact ⟨l, h.setStop s.state nofun⟩
  | enterRun configured =>
    simp only [QueuedPool.step] at hs
    split_ifs at hs with ha
    cases hs
    exact ⟨l, h.enterRun ha _⟩
  | pollCancellations k =>
    simp only [QueuedPool.step] at hs
    split at hs
    · next d ha => exact h.pollCancellations ha hs
    · cases hs
  | recv =>
    simp only [QueuedPool.step] at hs
    split at hs
    · next d c channel ha hc =>
      split_ifs at hs
      cases hs
      exact h.recv ha hc
    · cases hs
  | recvPending =>
    simp only [QueuedPool.step] at hs
    split at hs
    · next d ha =>
      cases hs
      exact ⟨l, h.poll ha _ _⟩
    · cases hs
  | join w =>
    simp only [QueuedPool.step] at hs
    split at hs
    · next d ha =>
      split_ifs at hs
      cases hs
      exact h.join ha w
    · cases hs
  | joinPending =>
    simp only [QueuedPool.step] at hs
    split at hs
    · next d ha =>
      cases hs
      exact ⟨l, h.poll ha _ _⟩
    · cases hs
  | publishDrained =>
    simp only [QueuedPool.step] at hs
    split_ifs at hs with ha
    cases hs
    exact ⟨l, h.publishDrained ha⟩
  | stepWorker w => exact ⟨l, h.stepWorker hs⟩

/-- **Every run.** -/
theorem ok_reachable (h : (system cfg).Reachable s) : ∃ l, Ok cfg s l :=
  System.Reachable.invariant (I := fun s => ∃ l, Ok cfg s l) ⟨[], ok_init cfg⟩
    (fun _ _ _ ⟨_, hi⟩ hs => hi.step hs) h

/-! ## What the invariant says -/

/-- The executors that were handed a task, in order. -/
def handedOver (s : State) (task : ℕ) : List ℕ :=
  (s.dispatched.filter fun d => d.task = task).map Dispatch.worker

/-- A task waits in the queue. -/
def queued (s : State) (task : ℕ) : Bool := s.run.queue.any fun e => e.task = task

theorem count_finishedBy (finished : List (ℕ × ℕ)) (i v : ℕ) :
    (finishedBy finished v).count i = finished.count (i, v) := by
  induction finished with
  | nil => rfl
  | cons f finished ih =>
    obtain ⟨j, w⟩ := f
    unfold finishedBy at ih ⊢
    by_cases hw : w = v
    · subst hw
      by_cases hj : j = i
      · subst hj
        simp [ih]
      · simp [hj, ih]
    · simp [hw, ih]

theorem handedTo_eq_finishedBy (dispatched : List Dispatch) (v : ℕ) :
    handedTo dispatched v = finishedBy (dispatched.map fun d => (d.task, d.worker)) v := by
  unfold handedTo finishedBy
  rw [List.filter_map, List.map_map]
  rfl

/-- Once `run` has returned, what was handed over is what has run. -/
theorem Ok.finished_perm (h : Ok cfg s l) (hc : s.actor.open = false) :
    s.finished.Perm (s.dispatched.map fun d => (d.task, d.worker)) := by
  have hexec := (h.core.run.retiring (h.actor.retiring hc)).2.2
  refine List.perm_iff_count.2 fun ⟨i, v⟩ => ?_
  have hv := h.core.workers v
  have hload := hv.gone (by rw [hexec]; exact Finset.notMem_empty v)
  have hheld : (s.workers v).held = [] := by
    unfold Worker.load at hload
    unfold Worker.held
    cases hpc : (s.workers v).pc <;> simp only [hpc] at hload ⊢
    case running => omega
    all_goals exact List.length_eq_zero_iff.1 (by omega)
  have hall := hv.held
  rw [hheld, List.append_nil, handedTo_eq_finishedBy] at hall
  rw [← count_finishedBy, ← count_finishedBy, hall]

/-- An accepted task is in the queue or was handed over, once. -/
theorem Ok.accepted_once (h : Ok cfg s l) {i : ℕ} (hr : (s.adds i).reply = .sent (.ok ())) :
    queued s i = true ∧ handedOver s i = [] ∨
      queued s i = false ∧ ∃ w, handedOver s i = [w] := by
  have hmem := (h.core.adds.accepted i).2 hr
  have hcount := List.count_eq_one_of_mem h.core.adds.nodup hmem
  rw [acceptedTasks, List.count_append] at hcount
  have hlen : (handedOver s i).length = (s.dispatched.map Dispatch.task).count i := by
    rw [handedOver, List.length_map, List.count_eq_countP, List.countP_map, ← List.countP_eq_length_filter]
    congr 1
  have hq : queued s i = true ↔ i ∈ l.map fun x => x.entry.task := by
    rw [queued, h.core.run.queue.any, List.any_eq_true, List.mem_map]
    simp
  by_cases hin : i ∈ l.map fun x => x.entry.task
  · have hpos := List.count_pos_iff.2 hin
    exact Or.inl ⟨hq.2 hin, List.length_eq_zero_iff.1 (by omega)⟩
  · have hzero := List.count_eq_zero_of_not_mem hin
    refine Or.inr ⟨by simpa using fun hc => hin (hq.1 hc), List.length_eq_one_iff.1 (by omega)⟩

/-- A task that was not accepted is nowhere. -/
theorem Ok.not_handed (h : Ok cfg s l) {i : ℕ} (hr : (s.adds i).reply ≠ .sent (.ok ())) :
    handedOver s i = [] := by
  rw [handedOver, List.map_eq_nil_iff, List.filter_eq_nil_iff]
  intro d hd hi
  refine hr ((h.core.adds.accepted i).1 (List.mem_append_right _ ?_))
  exact List.mem_map.2 ⟨d, hd, by simpa using hi⟩

/-- The executor of a task that was handed over has run it once, when `run` has returned. -/
theorem Ok.finished_once (h : Ok cfg s l) (hc : s.actor.open = false) {i w : ℕ}
    (hw : handedOver s i = [w]) : s.finished.filter (fun f => f.1 = i) = [(i, w)] := by
  have hperm := (h.finished_perm hc).filter fun f => decide (f.1 = i)
  rw [List.filter_map] at hperm
  have hmap : (s.dispatched.filter ((fun f : ℕ × ℕ => decide (f.1 = i)) ∘
      fun d => (d.task, d.worker))).map (fun d => (d.task, d.worker)) =
      (handedOver s i).map fun w => (i, w) := by
    rw [handedOver, List.map_map]
    refine List.map_congr_left fun d hd => ?_
    have : d.task = i := by simpa using (List.mem_filter.1 hd).2
    exact Prod.ext this rfl
  rw [hmap, hw] at hperm
  exact List.perm_singleton.1 hperm

/-- **Exactly-once execution.** For every pool and every interleaving of its callers, its actor, its
executors and cancellations: the task of an `add_task` call that returned `Ok` is in the queue or was
handed to exactly one executor exactly once; when the actor has left its loop, hence when `drained`
is published and when a `stop` call returns, it was handed over and has run exactly once; the task of
a call that returned an error was not handed over. The actor never panics. -/
theorem exactly_once (h : (system cfg).Reachable s) :
    (∀ i, (s.adds i).pc = .returned (.ok ()) →
      (queued s i = true ∧ handedOver s i = [] ∨ queued s i = false ∧ ∃ w, handedOver s i = [w]) ∧
      (s.actor = .returned ∨ s.drained = true → ∃ w, handedOver s i = [w] ∧
        s.finished.filter (fun f => f.1 = i) = [(i, w)])) ∧
    (∀ i e, (s.adds i).pc = .returned (.error e) → handedOver s i = []) ∧
    (∀ k, s.stops k = .returned → s.drained = true) ∧
    s.actor ≠ .panicked := by
  obtain ⟨l, hok⟩ := ok_reachable h
  refine ⟨fun i hi => ?_, fun i e hi => ?_, hok.stops, fun hp => ?_⟩
  · have hcall := hok.core.adds.call i
    rw [CallOk, hi] at hcall
    have honce := hok.accepted_once hcall
    refine ⟨honce, fun hdone => ?_⟩
    have hclosed : s.actor.open = false := by
      rcases hdone with ha | hd
      · rw [ha]
        rfl
      · rw [hok.drained hd]
        rfl
    rcases honce with ⟨hq, -⟩ | ⟨-, w, hw⟩
    · -- a retired actor has an empty queue
      rw [queued, hok.core.run.queue.any,
        (hok.core.run.retiring (hok.actor.retiring hclosed)).2.1] at hq
      cases hq
    · exact ⟨w, hw, hok.finished_once hclosed hw⟩
  · have hcall := hok.core.adds.call i
    rw [CallOk, hi] at hcall
    exact hok.not_handed hcall.1
  · have hact := hok.actor
    rw [ActorOk, hp] at hact
    exact hact

/-- A FIFO pool with one executor. -/
def samplePool : Config := ⟨"sample", false, 1, 1⟩

/-- A task is accepted before the pool is stopped without ever having been started; it still runs,
and a later call is turned away. -/
def acceptedThenStopped : List Action :=
  [.addTask 0 0 0, .stepAdd 0, .stepAdd 0, .stepAdd 0, .stepAdd 0, .enterRun none,
    .pollCancellations none, .recv, .stepAdd 0,
    .stop 0, .stepStop 0, .stepStop 0, .stepStop 0, .addTask 1 1 0, .stepAdd 1, .stepAdd 1,
    .pollCancellations none, .recv, .stepWorker 0, .stepWorker 0, .stepWorker 0,
    .pollCancellations (some 0), .recv, .stepWorker 0, .pollCancellations none, .recvPending,
    .join 0, .publishDrained, .stepStop 0]

theorem acceptedThenStopped_runs :
    ((system samplePool).run (.init samplePool) acceptedThenStopped).isSome := by
  decide +kernel

theorem exactly_once_acceptedThenStopped :
    ∃ s, (system samplePool).Reachable s ∧ s.stops 0 = .returned ∧
      (s.adds 0).pc = .returned (.ok ()) ∧
      (s.adds 1).pc = .returned (.error (.resourceStopped "sample")) ∧
      (∃ w, handedOver s 0 = [w] ∧ s.finished.filter (fun f => f.1 = 0) = [(0, w)]) ∧
      handedOver s 1 = [] := by
  have h := System.reachable_get acceptedThenStopped_runs
  obtain ⟨hok, herr, hstop, -⟩ := exactly_once h
  have h₀ : (((system samplePool).run (.init samplePool) acceptedThenStopped).get
      acceptedThenStopped_runs).stops 0 = .returned := by decide +kernel
  refine ⟨_, h, h₀, by decide +kernel, by decide +kernel, ?_, ?_⟩
  · exact (hok 0 (by decide +kernel)).2 (Or.inr (hstop 0 h₀))
  · exact herr 1 (.resourceStopped "sample") (by decide +kernel)

end QueuedPool

end ServiceLib
