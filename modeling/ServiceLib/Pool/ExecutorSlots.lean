import ServiceLib.Pool.CancelledFirst

/-!
# The executors of a queued pool

`executor_slots`: in every reachable state the executors are the idle ones, each of them once, and
the busy ones, each of which owes exactly one `Ready`; none of the actor's subtractions, lookups and
sends fails; a task is handed over only while there are no more executors than the target says; and
the number of executors rises only as far as the target, so that after a downsize it does not come
back before the target does.

The counts are part of the invariant of `Pool/ExactlyOnce.lean`. What is left is one iteration of the
actor: `Bounds` says what it does to the number of executors. Idle executors are retired first, and
if there are too many executors after that then none is idle, so nothing is handed over.
-/

namespace ServiceLib

namespace QueuedPool

variable {cfg : Config} {s t : State} {l : List (Item Entry)}

/-! ## One iteration -/

/-- What becomes of the executors in a step, or in a part of one. -/
structure Bounds (s t : State) : Prop where
  card : t.run.executors.card ≤ max s.run.executors.card t.run.target
  dispatched : t.dispatched = s.dispatched ∨ t.run.executors.card ≤ t.run.target

/-- The loops over the executors, from `s` on; nothing was handed over yet. -/
structure Refilling (cfg : Config) (s t : State) (l : List (Item Entry)) : Prop where
  core : Core cfg t l
  target : t.run.target = s.run.target
  dispatched : t.dispatched = s.dispatched
  card : t.run.executors.card ≤ max s.run.executors.card s.run.target

/-- The loop that hands tasks to idle executors, from `s` on. -/
structure Dispatching (cfg : Config) (s t : State) (l : List (Item Entry)) : Prop where
  core : Core cfg t l
  target : t.run.target = s.run.target
  card : t.run.executors.card ≤ max s.run.executors.card s.run.target
  room : t.run.executors.card ≤ t.run.target ∨ t.run.idle = [] ∧ t.dispatched = s.dispatched

theorem Refilling.retire (h : Refilling cfg s t l) {w : ℕ} {idle : List ℕ}
    (hi : t.run.idle = w :: idle) :
    Refilling cfg s { t with run := { t.run with
      executors := t.run.executors.erase w, idle := idle } } l :=
  ⟨h.core.retire hi, h.target, h.dispatched, (Finset.card_erase_le).trans h.card⟩

theorem card_spawned (h : Core cfg t l) :
    (spawned t).run.executors.card = t.run.executors.card + 1 :=
  Finset.card_insert_of_notMem h.nextWorker_notMem

theorem Refilling.spawn (h : Refilling cfg s t l) (hr : t.run.retiring = false)
    (hc : t.run.executors.card < t.run.target) : Refilling cfg s (spawned t) l := by
  refine ⟨h.core.spawn hr, h.target, h.dispatched, ?_⟩
  rw [card_spawned h.core]
  have := h.target
  omega

theorem Dispatching.dispatch {x : Item Entry} (h : Dispatching cfg s t (x :: l)) {w : ℕ}
    {idle : List ℕ} (hi : t.run.idle = w :: idle) {queue : PendingQueue Entry}
    (hq : PendingQueue.Represents cfg.priority queue l) :
    Dispatching cfg s (dispatchedTo t queue x.entry w idle) l := by
  refine ⟨h.core.dispatch hi hq, h.target, h.card, Or.inl ?_⟩
  rcases h.room with hroom | ⟨hnone, -⟩
  · exact hroom
  · rw [hi] at hnone
    cases hnone

/-- Nothing runs, or the three loops run one after the other. -/
theorem Core.refill (h : Core cfg s l) : ∃ t, refill s = some t ∧
    (t = s ∨ ∃ l', Dispatching cfg s t l') := by
  by_cases hc : (s.run.started && !s.run.retiring) = true
  · have ha : Active s.run := by
      rw [Bool.and_eq_true, Bool.not_eq_true'] at hc
      exact hc
    obtain ⟨t₁, h₁, ⟨hi₁, ha₁⟩, hroom⟩ := retireIdle_rule (I := Refilling cfg s)
      (fun h _ hi _ => h.retire hi) ⟨h, rfl, rfl, le_max_left _ _⟩ ha
    -- what the second loop spawns fits under the target, so there is still room after it
    have hcore : ∀ {u l}, Refilling cfg s u l ∧
        (u.run.executors.card ≤ u.run.target ∨ u.run.idle = []) → Core cfg u l := fun h => h.1.core
    obtain ⟨t₂, h₂, ⟨⟨hi₂, hroom₂⟩, ha₂⟩, ht₂⟩ := spawnWorkers_rule hcore
      (fun h ha hc => ⟨h.1.spawn ha.2 hc, Or.inl (by
        rw [card_spawned h.1.core]
        exact hc)⟩) ⟨hi₁, hroom⟩ ha₁
    have hcore' : ∀ {u l}, Dispatching cfg s u l → Core cfg u l := fun h => h.core
    obtain ⟨t₃, l', h₃, hi₃, -⟩ := dispatch_rule hcore' (fun h _ hi hq => h.dispatch hi hq)
      ⟨hi₂.core, hi₂.target, hi₂.card, hroom₂.imp_right fun h => ⟨h, hi₂.dispatched⟩⟩ ha₂ ht₂
    refine ⟨t₃, ?_, Or.inr ⟨l', hi₃⟩⟩
    rw [QueuedPool.refill, if_pos hc]
    simp only [bind, h₁, Option.bind_some, h₂, h₃]
  · exact ⟨s, by rw [QueuedPool.refill, if_neg hc], Or.inl rfl⟩

theorem Bounds.refl (s : State) : Bounds s s := ⟨le_max_left _ _, Or.inl rfl⟩

/-- A step that leaves the actor's variables alone. -/
theorem Bounds.of_run (hr : t.run = s.run) (hd : t.dispatched = s.dispatched) : Bounds s t :=
  ⟨by rw [hr]; exact le_max_left _ _, Or.inl hd⟩

/-- The command was handled before, and changed neither the executors nor what was handed over. -/
theorem Bounds.after {u : State} (h : Bounds u t)
    (hc : u.run.executors.card = s.run.executors.card) (hd : u.dispatched = s.dispatched) :
    Bounds s t :=
  ⟨by rw [← hc]; exact h.card, by rw [← hd]; exact h.dispatched⟩

/-- Executors may go after the loops; the target stays, and nothing more is handed over. -/
theorem Bounds.endLoop (h : Bounds s t) : Bounds s (endLoop (beginRetiring t)) := by
  have hb : Bounds s (QueuedPool.beginRetiring t) := by
    unfold QueuedPool.beginRetiring
    split_ifs
    · exact ⟨Nat.zero_le _, Or.inr (Nat.zero_le _)⟩
    · exact h
  unfold QueuedPool.endLoop
  split_ifs
  · exact ⟨hb.card, hb.dispatched⟩
  · exact ⟨hb.card, hb.dispatched⟩

/-- **One iteration**, after what was polled is handled. -/
theorem settle_bounds (h : Core cfg s l) (ht : settle s = some t) : Bounds s t := by
  obtain ⟨u, hu, hcase⟩ := h.refill
  rw [settle, hu] at ht
  cases ht
  apply Bounds.endLoop
  obtain rfl | ⟨l', hd⟩ := hcase
  · exact Bounds.refl u
  · refine ⟨by rw [hd.target]; exact hd.card, ?_⟩
    rcases hd.room with hroom | ⟨-, hsame⟩
    · exact Or.inr hroom
    · exact Or.inl hsame

/-- The same, in the form the actor's steps have it. -/
theorem orPanic_bounds (h : Core cfg s l) (hl : s.launched = true) (hd : s.drained = false)
    (hst : ∀ i, s.stops i ≠ .returned) (p : State) : Bounds s (orPanic p (settle s)) := by
  obtain ⟨u, -, hu, -⟩ := h.settle hl hd hst
  rw [hu]
  exact settle_bounds h hu

/-! ## Every step -/

/-- No command changes the executors before the loops run. -/
theorem handle_executors {c : Command} (hs : handle cfg s (some c) = some t) :
    t.run.executors = s.run.executors ∧ t.dispatched = s.dispatched := by
  cases c with
  | add context priority task =>
    simp only [handle] at hs
    split_ifs at hs
    · cases hs
      exact ⟨rfl, rfl⟩
    · cases hs
      exact ⟨rfl, rfl⟩
    · simp only [bind, Option.bind_eq_some_iff] at hs
      obtain ⟨queue, -, hs⟩ := hs
      cases hs
      exact ⟨rfl, rfl⟩
  | start count | resize count | ready w =>
    simp only [handle] at hs
    split_ifs at hs <;> cases hs <;> exact ⟨rfl, rfl⟩
  | stop =>
    cases hs
    exact ⟨rfl, rfl⟩

theorem pollCancellations_bounds (h : Ok cfg s l) {k : Option ℕ} {d : Bool}
    (ha : s.actor = .select .cancellations d) (hs : pollCancellations s k d = some t) :
    Bounds s t := by
  obtain ⟨hl, hd, hst⟩ := h.selecting ha
  unfold pollCancellations at hs
  by_cases hdis : (d || s.run.cancellations.isEmpty) = true
  · rw [if_pos hdis] at hs
    split_ifs at hs
    cases hs
    exact Bounds.of_run rfl rfl
  rw [if_neg hdis] at hs
  cases k with
  | none =>
    simp only at hs
    split_ifs at hs
    cases hs
    exact Bounds.of_run rfl rfl
  | some k =>
    simp only [bind, Option.bind_eq_some_iff] at hs
    obtain ⟨c, -, hs⟩ := hs
    by_cases hab : c.aborted = true
    · rw [if_pos hab] at hs
      cases hs
      exact ⟨le_max_left _ _, Or.inl rfl⟩
    · rw [if_neg hab] at hs
      split_ifs at hs
      cases hs
      obtain ⟨queue, hpr, hq⟩ := PendingQueue.promote_represents h.core.run.queue c.id
      have hp := Waiting.promote_perm cfg.priority l h.core.run.queue.nodup c.id
      have hc := h.core.queue hq hp (s.run.cancellations.eraseIdx k) s.run.workers
      simp only [hpr, Option.bind_some]
      exact (orPanic_bounds hc hl hd hst s).after rfl rfl

theorem recv_bounds (h : Ok cfg s l) {d : Bool} {c : Command} {channel : List Command}
    (ha : s.actor = .select .commands d) (hc : s.channel = c :: channel) :
    Bounds s (orPanic { s with channel := channel }
      ((handle cfg { s with channel := channel } (some c)).bind settle)) := by
  obtain ⟨hl, hd, hst⟩ := h.selecting ha
  obtain ⟨u, l₁, hu, hcore, hcalm⟩ := h.core.handle hc
  obtain ⟨hexec, hdisp⟩ := handle_executors hu
  rw [hu, Option.bind_some]
  exact (orPanic_bounds hcore (hcalm.launched.trans hl) (hcalm.drained.trans hd)
    (by rw [hcalm.stops]; exact hst) _).after (by rw [hexec]) hdisp

theorem step_bounds (h : Ok cfg s l) {a : Action} (hs : step cfg s a = some t) : Bounds s t := by
  cases a with
  | cancel c =>
    cases hs
    exact Bounds.of_run rfl rfl
  | addTask i context priority =>
    simp only [step] at hs
    split_ifs at hs
    cases hs
    exact Bounds.of_run rfl rfl
  | stepAdd i => exact Bounds.of_run (stepAdd_quiet hs).run (stepAdd_quiet hs).dispatched
  | stepStart i configured =>
    exact Bounds.of_run (stepStart_quiet hs).run (stepStart_quiet hs).dispatched
  | stepStop i => exact Bounds.of_run (stepStop_quiet hs).run (stepStop_quiet hs).dispatched
  | stepWorker w => exact Bounds.of_run (stepWorker_quiet hs).run (stepWorker_quiet hs).dispatched
  | reloadConfig configured =>
    simp only [step, Option.some.injEq] at hs
    subst hs
    cases hsend : send s (.resize (executors cfg configured)) with
    | some u =>
      obtain ⟨-, rfl⟩ := send_eq_some hsend
      exact Bounds.of_run rfl rfl
    | none => exact Bounds.refl s
  | dropAdd i | start i | stop i | dropStop i | publishDrained =>
    simp only [step] at hs
    split_ifs at hs
    cases hs
    exact Bounds.of_run rfl rfl
  | enterRun configured =>
    simp only [step] at hs
    split_ifs at hs
    cases hs
    exact ⟨Nat.zero_le _, Or.inl rfl⟩
  | pollCancellations k =>
    simp only [step] at hs
    split at hs
    · next d ha => exact pollCancellations_bounds h ha hs
    · cases hs
  | recv =>
    simp only [step] at hs
    split at hs
    · next d c channel ha hc =>
      split_ifs at hs
      cases hs
      exact recv_bounds h ha hc
    · cases hs
  | recvPending | joinPending =>
    simp only [step] at hs
    split at hs
    · cases hs
      exact Bounds.of_run rfl rfl
    · cases hs
  | join w =>
    simp only [step] at hs
    split at hs
    · next d ha =>
      split_ifs at hs
      cases hs
      obtain ⟨hl, hd, hst⟩ := h.selecting ha
      have hc := h.core.queue h.core.run.queue (List.Perm.refl _) s.run.cancellations
        (s.run.workers.erase w)
      exact (orPanic_bounds hc hl hd hst _).after rfl rfl
    · cases hs

/-! ## The result -/

/-- The reports a worker owes: for a task it was handed and has not reported, or a `Ready` that the
actor has not received. -/
def outstanding (s : State) (w : ℕ) : ℕ := (s.workers w).load + s.channel.count (.ready w)

/-- The executors are the idle ones and the busy ones. -/
structure SlotsOk (s : State) : Prop where
  idleNodup : s.run.idle.Nodup
  idleMem : ∀ w ∈ s.run.idle, w ∈ s.run.executors
  count : s.run.retiring = false → s.run.executors.card = s.run.idle.length + s.run.busy
  busy : ∀ w ∈ s.run.executors, w ∉ s.run.idle → outstanding s w = 1
  idle : ∀ w ∈ s.run.idle, outstanding s w = 0
  /-- `busy -= 1` does not underflow. -/
  ready : ∀ w, .ready w ∈ s.channel → 0 < s.run.busy ∧ w ∈ s.run.executors ∧ w ∉ s.run.idle
  noPanic : s.actor ≠ .panicked

theorem Ok.slotsOk (h : Ok cfg s l) : SlotsOk s where
  idleNodup := h.core.run.idleNodup
  idleMem := h.core.run.idleMem
  count := fun _ => by rw [← h.core.run.busy, Nat.add_comm]
  busy := fun w hw hi => (h.core.workers w).busy hw hi
  idle := fun w hw => (h.core.workers w).idle hw
  ready := fun w hw => by
    have hpos : 0 < s.channel.count (.ready w) := List.count_pos_iff.2 hw
    have hidle : w ∉ s.run.idle := fun hi => by
      have := (h.core.workers w).idle hi
      omega
    have hexec : w ∈ s.run.executors := by
      by_contra hn
      have := (h.core.workers w).gone hn
      omega
    exact ⟨Nat.pos_of_ne_zero fun hb => hidle (h.core.run.idle_of_busy hb hexec), hexec, hidle⟩
  noPanic := fun ha => by
    have hact := h.actor
    rw [ActorOk, ha] at hact
    exact hact

/-- The step does not raise the target. -/
def Lowers (cfg : Config) (s : State) (a : Action) : Prop :=
  ∀ t, step cfg s a = some t → t.run.target ≤ s.run.target

/-- **The executors of a pool.** In every reachable state each executor is idle, once, or owes one
`Ready`, and nothing has panicked; tasks are handed over, and executors added, only as far as the
target goes; and until the target is raised there are never more executors than there were, or than
the target says. -/
theorem executor_slots (h : (system cfg).Reachable s) :
    SlotsOk s ∧
    (∀ a t, step cfg s a = some t →
      (t.dispatched ≠ s.dispatched → t.run.executors.card ≤ t.run.target) ∧
      (s.run.executors.card < t.run.executors.card → t.run.executors.card ≤ t.run.target)) ∧
    ∀ t, ((system cfg).startedAt s).Reach (Lowers cfg) t →
      t.run.target ≤ s.run.target ∧
      t.run.executors.card ≤ max s.run.executors.card s.run.target := by
  obtain ⟨l, hok⟩ := ok_reachable h
  refine ⟨hok.slotsOk, fun a t hs => ?_, fun t ht => ?_⟩
  · have hb := step_bounds hok hs
    refine ⟨fun hne => hb.dispatched.resolve_left hne, fun hlt => ?_⟩
    exact (le_max_iff.1 hb.card).resolve_left (Nat.not_le.2 hlt)
  · have hinv : (∃ l, Ok cfg t l) ∧ t.run.target ≤ s.run.target ∧
        t.run.executors.card ≤ max s.run.executors.card s.run.target := by
      refine System.Reach.invariant (S := (system cfg).startedAt s)
        (I := fun t => (∃ l, Ok cfg t l) ∧ t.run.target ≤ s.run.target ∧
          t.run.executors.card ≤ max s.run.executors.card s.run.target)
        ⟨⟨l, hok⟩, le_rfl, le_max_left _ _⟩ (fun u a v hu hlow hs => ?_) ht
      obtain ⟨⟨l', hou⟩, htar, hcard⟩ := hu
      have hle := hlow v hs
      have hb := (step_bounds hou hs).card
      refine ⟨hou.step hs, hle.trans htar, ?_⟩
      omega
    exact hinv.2

/-- A FIFO pool with two executors. -/
def pairPool : Config := ⟨"pair", false, 2, ⟨1, Nat.one_pos⟩⟩

/-- Both executors are busy when the pool shrinks to one. -/
def shrink : List Action :=
  [.start 0, .stepStart 0 none, .stepStart 0 none, .stepStart 0 none, .enterRun none,
    .pollCancellations none, .recv,
    .addTask 0 0 0, .stepAdd 0, .stepAdd 0, .stepAdd 0, .stepAdd 0, .pollCancellations none, .recv,
    .addTask 1 1 0, .stepAdd 1, .stepAdd 1, .stepAdd 1, .stepAdd 1,
    .pollCancellations (some 0), .recv, .reloadConfig (some 1), .pollCancellations (some 0), .recv]

theorem shrink_runs : ((system pairPool).run (.init pairPool) shrink).isSome := by
  decide +kernel

theorem executor_slots_shrink :
    ∃ s, (system pairPool).Reachable s ∧ s.run.target = 1 ∧ s.run.executors.card = 2 ∧
      s.run.busy = 2 ∧ SlotsOk s := by
  have h := System.reachable_get shrink_runs
  exact ⟨_, h, by decide +kernel, by decide +kernel, by decide +kernel, (executor_slots h).1⟩

end QueuedPool

end ServiceLib
