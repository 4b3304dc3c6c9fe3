import ServiceLib.Runtime.Error
import ServiceLib.Transition

/-!
# The cron scheduler

Follows `CronJob` and `run_scheduler` in `src/datasource/cron/croner.rs`. The scheduler sleeps until
the earliest `next` of its jobs, reads the clock, and goes over the jobs: a job that is due gets its
next occurrence from `due`, and the occurrence is spawned into a `JoinSet`, unless a policy of the job
says otherwise. On cancellation it joins what it has spawned and returns.

**Theorem (`accepted_occurrences_complete`).** When the scheduler has returned, every occurrence that it
spawned has run to its end, no due occurrence was lost, and it has returned only because it was
cancelled, in every run in which no due job's schedule runs out. A step at which a schedule does run
out breaks this.

The error of `due` leaves the loop over the jobs and the scheduler with it. The `JoinSet` is dropped
with the occurrences of the other jobs in it (`schedule_end_aborts_others`).

An instant is the number of nanoseconds since the epoch. The answers of `croner` and of the time zone
are parameters of a job. Dropping a `JoinSet` aborts the tasks that are still in it.
-/

namespace ServiceLib

namespace CronSource

/-! ## Schedules -/

/-- `LocalResult<DateTime<Tz>>`, by instants. -/
inductive LocalResult
  | none
  | single (instant : ℤ)
  | ambiguous (first second : ℤ)

/-- What `next` asks of a time zone. -/
structure Tz where
  naiveLocal : ℤ → ℤ
  fromLocalDatetime : ℤ → LocalResult

/-- What `next` asks of a `croner::Cron`, for the instants of a time zone. -/
structure Cron where
  findNextOccurrence : Tz → ℤ → Except String ℤ
  isTimeMatching : Tz → ℤ → Except String Bool

inductive LocalSchedule
  | calendar (schedule : Cron)
  | interval (milliseconds : ℤ)

inductive ScheduleOverlapPolicy
  | allow
  | skip
  deriving DecidableEq

inductive ScheduleMissedRunPolicy
  | skip
  | fireOnce
  deriving DecidableEq

structure CronJob where
  schedule : LocalSchedule
  timezone : Tz
  overlapPolicy : ScheduleOverlapPolicy
  missedRunPolicy : ScheduleMissedRunPolicy

/-- The milliseconds of the first and of the last instant that `chrono` represents,
`-262143-01-01T00:00:00` and `262142-12-31T23:59:59.999`. -/
def minMillis : ℤ := -8334601228800000

def maxMillis : ℤ := 8210266876799999

/-- `DateTime::timestamp_millis`. -/
def timestampMillis (instant : ℤ) : ℤ := instant / 1000000

/-- `DateTime::from_timestamp_millis`. -/
def fromTimestampMillis (millis : ℤ) : Option ℤ :=
  if minMillis ≤ millis ∧ millis ≤ maxMillis then some (millis * 1000000) else none

/-- `TimeDelta::num_milliseconds`. -/
def numMilliseconds (delta : ℤ) : ℤ := delta.tdiv 1000000

/-- `candidate` is the first of the instants that have its wall time. -/
def firstFold (timezone : Tz) (candidate : ℤ) : Bool :=
  match timezone.fromLocalDatetime (timezone.naiveLocal candidate) with
  | .ambiguous first _ => decide (first = candidate)
  | .single _ => true
  | .none => false

/-- The loop of `CronJob::next`; `none`: still looking after that many rounds. -/
def nextLoop (schedule : Cron) (timezone : Tz) : ℕ → ℤ → Option (RuntimeResult ℤ)
  | 0, _ => none
  | fuel + 1, cursor =>
    match schedule.findNextOccurrence timezone cursor with
    | .error e => some (.error (.invalidConfiguration e))
    | .ok candidate =>
      match schedule.isTimeMatching timezone candidate with
      | .error e => some (.error (.invalidConfiguration e))
      | .ok isMatch =>
        if isMatch && firstFold timezone candidate then some (.ok candidate)
        else nextLoop schedule timezone fuel candidate

namespace CronJob

/-- `CronJob::next`. -/
def next (job : CronJob) (fuel : ℕ) (after : ℤ) : Option (RuntimeResult ℤ) :=
  match job.schedule with
  | .interval milliseconds =>
    match fromTimestampMillis (timestampMillis after + milliseconds) with
    | some instant => some (.ok instant)
    | none => some (.error (.invalidConfiguration "interval timestamp out of range"))
  | .calendar schedule => nextLoop schedule job.timezone fuel after

/-- The loop of `CronJob::due`, from the occurrences `latest` and `next` on. -/
def dueLoop (job : CronJob) (fuel : ℕ) (now : ℤ) :
    ℕ → ℤ → ℤ → Bool → Option (RuntimeResult (ℤ × ℤ × Bool))
  | 0, _, _, _ => none
  | rounds + 1, latest, next, missed =>
    if next ≤ now then
      match job.next fuel next with
      | none => none
      | some (.error e) => some (.error e)
      | some (.ok following) => dueLoop job fuel now rounds next following true
    else some (.ok (latest, next, missed))

/-- `CronJob::due`: the latest due occurrence, the one after it, and whether others were missed. -/
def due (job : CronJob) (fuel : ℕ) (first now : ℤ) : Option (RuntimeResult (ℤ × ℤ × Bool)) :=
  match job.schedule with
  | .interval milliseconds =>
    let skipped := (numMilliseconds (now - first)).tdiv milliseconds
    let latest := first + skipped * milliseconds * 1000000
    match job.next fuel latest with
    | none => none
    | some (.error e) => some (.error e)
    | some (.ok following) => some (.ok (latest, following, decide (0 < skipped)))
  | .calendar _ =>
    match job.next fuel first with
    | none => none
    | some (.error e) => some (.error e)
    | some (.ok next) => job.dueLoop fuel now fuel first next false

/-- The schedule runs out: the `due` of an occurrence meets an error of `next`. -/
def RunsOut (job : CronJob) (first now : ℤ) : Prop :=
  ∃ fuel e, job.due fuel first now = some (.error e)

end CronJob

/-! ## The scheduler -/

/-- `ScheduledJob`. -/
structure ScheduledJob where
  job : CronJob
  next : ℤ

inductive TaskStatus
  | running
  | completed
  | panicked
  | aborted
  deriving DecidableEq

/-- The task has run to its end; its function returned or panicked there. -/
def TaskStatus.ended : TaskStatus → Bool
  | .completed | .panicked => true
  | .running | .aborted => false

/-- A spawned occurrence of the job at position `job`; `guarded`: it holds a `RunningGuard`. -/
structure Task where
  job : ℕ
  scheduledAt : ℤ
  guarded : Bool
  status : TaskStatus

inductive Pc
  /-- At the `select!` of the loop. -/
  | selecting
  /-- In the loop over the jobs, about to look at the one at position `i`. -/
  | processing (now : ℤ) (i : ℕ)
  | draining
  | returned (result : RuntimeResult Unit)

structure State where
  scheduled : List ScheduledJob
  /-- The flag `running` of each job. -/
  running : ℕ → Bool
  /-- All tasks ever spawned, in order, and those that are in the `JoinSet`. -/
  tasks : List Task
  joinSet : List ℕ
  cancellation : Bool
  ownerCancelled : Bool
  pc : Pc
  /-- Due occurrences that were neither dispatched nor passed over by a policy of the job. -/
  dropped : List (ℕ × ℤ)

/-- The scheduler as `start` spawns it. -/
def State.init (scheduled : List ScheduledJob) : State where
  scheduled := scheduled
  running := fun _ => false
  tasks := []
  joinSet := []
  cancellation := false
  ownerCancelled := false
  pc := .selecting
  dropped := []

/-- `CronJob::dispatch`, for the job at position `i`. -/
def dispatch (s : State) (i : ℕ) (job : CronJob) (scheduledAt : ℤ) : State :=
  if s.ownerCancelled then s
  else
    let guarded := decide (job.overlapPolicy = .skip)
    if guarded && s.running i then s
    else
      let task : Task := ⟨i, scheduledAt, guarded, .running⟩
      let running := if guarded then Function.update s.running i true else s.running
      { s with
        running := running
        tasks := s.tasks ++ [task]
        joinSet := s.joinSet ++ [s.tasks.length] }

/-- Task `i` ends, and its guard is dropped. -/
def endTask (s : State) (i : ℕ) (status : TaskStatus) : Option State :=
  match s.tasks[i]? with
  | some task =>
    if task.status = .running then
      some { s with
        tasks := s.tasks.set i { task with status := status }
        running := if task.guarded then Function.update s.running task.job false else s.running }
    else none
  | none => none

/-- The task is aborted when the `JoinSet` is dropped. -/
def abortedByDrop (s : State) (i : ℕ) (task : Task) : Bool :=
  decide (i ∈ s.joinSet) && decide (task.status = .running)

/-- The scheduler returns, and drops the `JoinSet`. -/
def return_ (s : State) (result : RuntimeResult Unit) : State :=
  { s with
    tasks := s.tasks.mapIdx fun i task =>
      if abortedByDrop s i task then { task with status := .aborted } else task
    running := fun job => s.running job && !s.tasks.zipIdx.any fun (task, i) =>
      abortedByDrop s i task && task.guarded && decide (task.job = job)
    joinSet := []
    pc := .returned result }

/-- One round of the loop over the jobs. -/
def processJob (s : State) (now : ℤ) (i : ℕ) (fuel : ℕ) : Option State :=
  match s.scheduled[i]? with
  | none => some { s with pc := .selecting }
  | some x =>
    if now < x.next then some { s with pc := .processing now (i + 1) }
    else
      match x.job.due fuel x.next now with
      | none => none
      | some (.error e) =>
        some (return_ { s with dropped := s.dropped ++ [(i, x.next)] } (.error e))
      | some (.ok (lastDue, next, missed)) =>
        let scheduled := s.scheduled.set i { x with next := next }
        let s := { s with scheduled := scheduled, pc := .processing now (i + 1) }
        if !missed || decide (x.job.missedRunPolicy = .fireOnce) then
          some (dispatch s i x.job lastDue)
        else some s

inductive Action
  /-- The sleep is over, and the clock shows `now`. -/
  | wake (now : ℤ)
  | process (fuel : ℕ)
  /-- Task `i` completes or panics. -/
  | complete (i : ℕ)
  | panic (i : ℕ)
  /-- `join_next` answers with task `i`. -/
  | joinNext (i : ℕ)
  /-- `stop` cancels the scheduler's token, or the owner's context is cancelled. -/
  | cancel
  | cancelOwner
  /-- The `select!` sees a cancellation. -/
  | observe
  /-- `join_next` answers that the `JoinSet` is empty. -/
  | drained

def step (s : State) : Action → Option State
  | .wake now =>
    match s.pc, s.scheduled with
    | .selecting, _ :: _ => some { s with pc := .processing now 0 }
    | _, _ => none
  | .process fuel =>
    match s.pc with
    | .processing now i => processJob s now i fuel
    | _ => none
  | .complete i => endTask s i .completed
  | .panic i => endTask s i .panicked
  | .joinNext i =>
    let ended := (s.tasks[i]?).any fun task => task.status.ended
    let joins := match s.pc with
      | .selecting => !s.scheduled.isEmpty
      | .draining => true
      | _ => false
    if joins && ended && decide (i ∈ s.joinSet) then
      some { s with joinSet := s.joinSet.erase i }
    else none
  | .cancel => some { s with cancellation := true }
  | .cancelOwner => some { s with ownerCancelled := true }
  | .observe =>
    match s.pc with
    | .selecting =>
      if s.cancellation || s.ownerCancelled then
        if s.scheduled.isEmpty then some (return_ s (.ok ())) else some { s with pc := .draining }
      else none
    | _ => none
  | .drained =>
    match s.pc with
    | .draining => if s.joinSet = [] then some (return_ s (.ok ())) else none
    | _ => none

def system (scheduled : List ScheduledJob) : System State Action where
  init := .init scheduled
  step := step

/-! ## More rounds do not change an answer -/

theorem nextLoop_mono {schedule : Cron} {timezone : Tz} {n m : ℕ} {cursor : ℤ}
    {r : RuntimeResult ℤ} (hnm : n ≤ m) (h : nextLoop schedule timezone n cursor = some r) :
    nextLoop schedule timezone m cursor = some r := by
  induction n generalizing m cursor with
  | zero => cases h
  | succ n ih =>
    obtain ⟨m, rfl⟩ : ∃ k, m = k + 1 := ⟨m - 1, by omega⟩
    simp only [nextLoop] at h ⊢
    cases hfind : schedule.findNextOccurrence timezone cursor with
    | error e => rwa [hfind] at h
    | ok candidate =>
      simp only [hfind] at h ⊢
      cases hmatch : schedule.isTimeMatching timezone candidate with
      | error e => rwa [hmatch] at h
      | ok isMatch =>
        simp only [hmatch] at h ⊢
        split_ifs at h ⊢ with hc
        · exact h
        · exact ih (by omega) h

namespace CronJob

variable {job : CronJob} {n m k l : ℕ} {first now latest : ℤ}

theorem next_mono {r : RuntimeResult ℤ} (hnm : n ≤ m) (h : job.next n first = some r) :
    job.next m first = some r := by
  simp only [CronJob.next] at h ⊢
  cases hs : job.schedule with
  | interval milliseconds => rwa [hs] at h
  | calendar schedule =>
    simp only [hs] at h ⊢
    exact nextLoop_mono hnm h

theorem dueLoop_mono {next : ℤ} {missed : Bool} {r : RuntimeResult (ℤ × ℤ × Bool)} (hnm : n ≤ m)
    (hkl : k ≤ l) (h : job.dueLoop n now k latest next missed = some r) :
    job.dueLoop m now l latest next missed = some r := by
  induction k generalizing l latest next missed with
  | zero => cases h
  | succ k ih =>
    obtain ⟨l, rfl⟩ : ∃ i, l = i + 1 := ⟨l - 1, by omega⟩
    simp only [dueLoop] at h ⊢
    split_ifs at h ⊢ with hc
    · cases hn : job.next n next with
      | none => simp only [hn, reduceCtorEq] at h
      | some x =>
        rw [next_mono hnm hn]
        cases x with
        | error e => rwa [hn] at h
        | ok following =>
          simp only [hn] at h
          exact ih (by omega) h
    · exact h

theorem due_mono {r : RuntimeResult (ℤ × ℤ × Bool)} (hnm : n ≤ m)
    (h : job.due n first now = some r) : job.due m first now = some r := by
  simp only [due] at h ⊢
  cases hs : job.schedule with
  | interval milliseconds =>
    simp only [hs] at h ⊢
    split at h
    · cases h
    all_goals
      rename_i hn
      rw [next_mono hnm hn]
      exact h
  | calendar schedule =>
    simp only [hs] at h ⊢
    split at h
    · cases h
    · rename_i hn
      rw [next_mono hnm hn]
      exact h
    · rename_i hn
      rw [next_mono hnm hn]
      exact dueLoop_mono hnm hnm h

/-- `due` has one answer, however long it takes. -/
theorem due_unique {r r' : RuntimeResult (ℤ × ℤ × Bool)} (h : job.due n first now = some r)
    (h' : job.due m first now = some r') : r = r' := by
  have hn := due_mono (le_max_left n m) h
  have hm := due_mono (le_max_right n m) h'
  rw [hn] at hm
  exact Option.some.inj hm

theorem runsOut_of_error {e : RuntimeError} (h : job.due n first now = some (.error e)) :
    job.RunsOut first now :=
  ⟨n, e, h⟩

theorem not_runsOut_of_ok {x : ℤ × ℤ × Bool} (h : job.due n first now = some (.ok x)) :
    ¬ job.RunsOut first now := by
  intro ⟨m, e, he⟩
  cases due_unique h he

end CronJob

/-! ## What a step does -/

/-- The steps of the scheduler and of its tasks, with what enables them. -/
inductive Moves (s : State) : Action → State → Prop
  | wake {now : ℤ} (hpc : s.pc = .selecting) (hne : s.scheduled ≠ []) :
    Moves s (.wake now) { s with pc := .processing now 0 }
  /-- All jobs have been looked at. -/
  | rest {now : ℤ} {i fuel : ℕ} (hpc : s.pc = .processing now i) (hi : s.scheduled[i]? = none) :
    Moves s (.process fuel) { s with pc := .selecting }
  | notDue {now : ℤ} {i fuel : ℕ} {x : ScheduledJob} (hpc : s.pc = .processing now i)
      (hi : s.scheduled[i]? = some x) (hnow : now < x.next) :
    Moves s (.process fuel) { s with pc := .processing now (i + 1) }
  | runsOut {now : ℤ} {i fuel : ℕ} {x : ScheduledJob} {e : RuntimeError}
      (hpc : s.pc = .processing now i) (hi : s.scheduled[i]? = some x) (hnow : x.next ≤ now)
      (hdue : x.job.due fuel x.next now = some (.error e)) :
    Moves s (.process fuel)
      (return_ { s with dropped := s.dropped ++ [(i, x.next)] } (.error e))
  | misses {now : ℤ} {i fuel : ℕ} {x : ScheduledJob} {lastDue next : ℤ}
      (hpc : s.pc = .processing now i) (hi : s.scheduled[i]? = some x) (hnow : x.next ≤ now)
      (hdue : x.job.due fuel x.next now = some (.ok (lastDue, next, true)))
      (hskip : x.job.missedRunPolicy = .skip) :
    Moves s (.process fuel)
      { s with
        scheduled := s.scheduled.set i { x with next := next }
        pc := .processing now (i + 1) }
  | fires {now : ℤ} {i fuel : ℕ} {x : ScheduledJob} {lastDue next : ℤ} {missed : Bool}
      (hpc : s.pc = .processing now i) (hi : s.scheduled[i]? = some x) (hnow : x.next ≤ now)
      (hdue : x.job.due fuel x.next now = some (.ok (lastDue, next, missed)))
      (hfire : missed = true → x.job.missedRunPolicy = .fireOnce) :
    Moves s (.process fuel)
      (dispatch
        { s with
          scheduled := s.scheduled.set i { x with next := next }
          pc := .processing now (i + 1) } i x.job lastDue)
  | completes {i : ℕ} {t : State} (h : endTask s i .completed = some t) : Moves s (.complete i) t
  | panics {i : ℕ} {t : State} (h : endTask s i .panicked = some t) : Moves s (.panic i) t
  | joins {i : ℕ} {task : Task} (hi : s.tasks[i]? = some task) (hend : task.status.ended = true)
      (hmem : i ∈ s.joinSet) (hpc : s.pc = .selecting ∨ s.pc = .draining) :
    Moves s (.joinNext i) { s with joinSet := s.joinSet.erase i }
  | cancel : Moves s .cancel { s with cancellation := true }
  | cancelOwner : Moves s .cancelOwner { s with ownerCancelled := true }
  | breaks (hpc : s.pc = .selecting) (hcancel : s.cancellation = true ∨ s.ownerCancelled = true) :
    Moves s .observe { s with pc := .draining }
  /-- Without jobs the scheduler only waits to be cancelled. -/
  | leaves (hpc : s.pc = .selecting) (hcancel : s.cancellation = true ∨ s.ownerCancelled = true)
      (hne : s.scheduled = []) :
    Moves s .observe (return_ s (.ok ()))
  | drained (hpc : s.pc = .draining) (hempty : s.joinSet = []) :
    Moves s .drained (return_ s (.ok ()))

theorem processJob_moves {s t : State} {now : ℤ} {i fuel : ℕ} (hpc : s.pc = .processing now i)
    (h : processJob s now i fuel = some t) : Moves s (.process fuel) t := by
  simp only [processJob] at h
  split at h
  · cases h
    exact .rest hpc ‹_›
  · rename_i x hx
    split_ifs at h with hnow
    · cases h
      exact .notDue hpc hx hnow
    · have hle := not_lt.1 hnow
      split at h
      · cases h
      · cases h
        exact .runsOut hpc hx hle ‹_›
      · rename_i lastDue next missed hdue
        split_ifs at h with hfire
        · cases h
          refine .fires hpc hx hle hdue fun hm => ?_
          simpa [hm] using hfire
        · cases h
          simp only [Bool.or_eq_true, Bool.not_eq_true', decide_eq_true_eq, not_or,
            Bool.not_eq_false] at hfire
          obtain ⟨rfl, hpolicy⟩ := hfire
          refine .misses hpc hx hle hdue ?_
          cases hp : x.job.missedRunPolicy with
          | skip => rfl
          | fireOnce => exact absurd hp hpolicy

theorem step_moves {s t : State} {a : Action} (h : step s a = some t) : Moves s a t := by
  cases a with
  | wake now =>
    simp only [step] at h
    split at h
    · rename_i hpc hne
      cases h
      refine .wake hpc ?_
      rw [hne]
      exact List.cons_ne_nil _ _
    · cases h
  | process fuel =>
    simp only [step] at h
    split at h
    · exact processJob_moves ‹_› h
    · cases h
  | complete i => exact .completes h
  | panic i => exact .panics h
  | joinNext i =>
    simp only [step] at h
    split_ifs at h with hc
    cases h
    simp only [Bool.and_eq_true, decide_eq_true_eq, Option.any_eq_true] at hc
    obtain ⟨⟨hpc, task, hi, hend⟩, hmem⟩ := hc
    refine .joins hi hend hmem ?_
    split at hpc
    · exact .inl ‹_›
    · exact .inr ‹_›
    · cases hpc
  | cancel =>
    cases h
    exact .cancel
  | cancelOwner =>
    cases h
    exact .cancelOwner
  | observe =>
    simp only [step] at h
    split at h
    · rename_i hpc
      split_ifs at h with hc hne
      · cases h
        exact .leaves hpc (by simpa using hc) (List.isEmpty_iff.1 hne)
      · cases h
        exact .breaks hpc (by simpa using hc)
    · cases h
  | drained =>
    simp only [step] at h
    split at h
    · split_ifs at h with hempty
      cases h
      exact .drained ‹_› hempty
    · cases h

/-! ## Accepted occurrences -/

/-- What is promised about accepted occurrences: once the scheduler has returned, those that it
spawned have run to their end; no due one is lost; and only a cancellation stops the jobs. -/
structure Honoured (s : State) : Prop where
  completed : ∀ r, s.pc = .returned r → ∀ task ∈ s.tasks, task.status.ended = true
  kept : s.dropped = []
  goesOn : ∀ r, s.pc = .returned r → s.cancellation = true ∨ s.ownerCancelled = true

/-- In this step no due job's schedule runs out. -/
def Continues (s : State) : Action → Prop
  | .process _ => ∀ now i x, s.pc = .processing now i → s.scheduled[i]? = some x → x.next ≤ now →
      ¬ x.job.RunsOut x.next now
  | _ => True

/-- A spawned occurrence has run to its end, or it is running and its task is in the `JoinSet`. -/
def Held (tasks : List Task) (joinSet : List ℕ) : Prop :=
  ∀ i task, tasks[i]? = some task →
    task.status.ended = true ∨ task.status = .running ∧ i ∈ joinSet

structure Inv (s : State) : Prop where
  held : Held s.tasks s.joinSet
  idle : s.scheduled = [] → s.tasks = [] ∧ s.joinSet = []
  returned : ∀ r, s.pc = .returned r → s.joinSet = []
  stopping : (s.pc = .draining ∨ ∃ r, s.pc = .returned r) →
    s.cancellation = true ∨ s.ownerCancelled = true
  kept : s.dropped = []

theorem inv_init (scheduled : List ScheduledJob) : Inv (.init scheduled) := by
  refine ⟨?_, fun _ => ⟨rfl, rfl⟩, fun _ _ => rfl, ?_, rfl⟩
  · intro i task h
    cases h
  · intro h
    rcases h with h | ⟨r, h⟩ <;> cases h

/-- With nothing in the `JoinSet`, every occurrence has run to its end. -/
theorem Held.ended {tasks : List Task} {joinSet : List ℕ} (h : Held tasks joinSet)
    (hempty : joinSet = []) : ∀ task ∈ tasks, task.status.ended = true := by
  intro task hmem
  obtain ⟨i, hi⟩ := List.mem_iff_getElem?.1 hmem
  rcases h i task hi with hend | ⟨-, hjoin⟩
  · exact hend
  · rw [hempty] at hjoin
    cases hjoin

theorem Inv.honoured {s : State} (h : Inv s) : Honoured s where
  completed r hr := h.held.ended (h.returned r hr)
  kept := h.kept
  goesOn r hr := h.stopping (.inr ⟨r, hr⟩)

/-! ## Keeping the invariant -/

/-- A step of the loop that leaves the tasks alone. -/
theorem Inv.goTo {s : State} (h : Inv s) {scheduled : List ScheduledJob} {pc : Pc}
    (hlen : scheduled.length = s.scheduled.length) (hpc : pc ≠ .draining)
    (hret : ∀ r, pc ≠ .returned r) : Inv { s with scheduled := scheduled, pc := pc } where
  held := h.held
  idle hnil := by
    have hs : s.scheduled.length = 0 := by
      rw [← hlen]
      exact congrArg List.length hnil
    exact h.idle (List.length_eq_zero_iff.1 hs)
  returned r hr := absurd hr (hret r)
  stopping hstop := by
    rcases hstop with hd | ⟨r, hr⟩
    · exact absurd hd hpc
    · exact absurd hr (hret r)
  kept := h.kept

theorem Inv.goTo_same {s : State} (h : Inv s) {pc : Pc} (hpc : pc ≠ .draining)
    (hret : ∀ r, pc ≠ .returned r) : Inv { s with pc := pc } :=
  h.goTo rfl hpc hret

/-- A new task is put into the `JoinSet`. -/
theorem Held.spawn {tasks : List Task} {joinSet : List ℕ} (h : Held tasks joinSet) {task : Task}
    (hrun : task.status = .running) : Held (tasks ++ [task]) (joinSet ++ [tasks.length]) := by
  intro i other hi
  rcases Nat.lt_trichotomy i tasks.length with hlt | heq | hgt
  · rw [List.getElem?_append_left hlt] at hi
    rcases h i other hi with hend | ⟨hother, hmem⟩
    · exact .inl hend
    · exact .inr ⟨hother, List.mem_append_left _ hmem⟩
  · rw [heq, List.getElem?_concat_length] at hi
    cases hi
    exact .inr ⟨hrun, by rw [heq]; exact List.mem_append_right _ (List.mem_singleton_self _)⟩
  · rw [List.getElem?_eq_none (by simp; omega)] at hi
    cases hi

theorem Inv.dispatch {s : State} (h : Inv s) (hne : s.scheduled ≠ [])
    (hret : ∀ r, s.pc ≠ .returned r) (i : ℕ) (job : CronJob) (scheduledAt : ℤ) :
    Inv (dispatch s i job scheduledAt) := by
  simp only [CronSource.dispatch]
  split_ifs
  · exact h
  · exact h
  all_goals
    exact
      { held := h.held.spawn rfl
        idle := fun hnil => absurd hnil hne
        returned := fun r hr => absurd hr (hret r)
        stopping := h.stopping
        kept := h.kept }

/-- A task that ends is over, and the others are as they were. -/
theorem Held.set {tasks : List Task} {joinSet : List ℕ} (h : Held tasks joinSet) {i : ℕ}
    {task : Task} (hend : task.status.ended = true) : Held (tasks.set i task) joinSet := by
  intro j other hj
  by_cases hij : i = j
  · rw [← hij, List.getElem?_set_self'] at hj
    cases hi : tasks[i]? with
    | none => simp [hi] at hj
    | some old =>
      simp only [hi, Option.map_eq_map, Option.map_some, Function.const_apply,
        Option.some.injEq] at hj
      exact .inl (hj ▸ hend)
  · rw [List.getElem?_set_ne hij] at hj
    exact h j other hj

theorem endTask_eq {s t : State} {i : ℕ} {status : TaskStatus} (h : endTask s i status = some t) :
    ∃ task running, s.tasks[i]? = some task ∧ task.status = .running ∧
      t = { s with tasks := s.tasks.set i { task with status := status }, running := running } := by
  simp only [endTask] at h
  split at h
  · rename_i task hi
    split at h
    · rename_i hrun
      cases h
      exact ⟨task, _, hi, hrun, rfl⟩
    · cases h
  · cases h

theorem Inv.endTask {s t : State} (h : Inv s) {i : ℕ} {status : TaskStatus}
    (hend : status.ended = true) (ht : endTask s i status = some t) : Inv t := by
  obtain ⟨task, running, hi, -, rfl⟩ := endTask_eq ht
  refine ⟨h.held.set hend, ?_, h.returned, h.stopping, h.kept⟩
  intro hnil
  rw [(h.idle hnil).1] at hi
  cases hi

/-- Only tasks that are over leave the `JoinSet` by `join_next`. -/
theorem Held.erase {tasks : List Task} {joinSet : List ℕ} (h : Held tasks joinSet) {i : ℕ}
    {task : Task} (hi : tasks[i]? = some task) (hend : task.status.ended = true) :
    Held tasks (joinSet.erase i) := by
  intro j other hj
  by_cases hij : j = i
  · rw [hij, hi] at hj
    cases hj
    exact .inl hend
  · rcases h j other hj with hother | ⟨hrun, hmem⟩
    · exact .inl hother
    · exact .inr ⟨hrun, (List.mem_erase_of_ne hij).2 hmem⟩

/-- The scheduler that returns with nothing in the `JoinSet` aborts nothing. -/
theorem return_tasks {s : State} (hempty : s.joinSet = []) (r : RuntimeResult Unit) :
    (return_ s r).tasks = s.tasks := by
  simp only [return_, abortedByDrop, hempty, List.not_mem_nil, decide_false, Bool.false_and,
    Bool.false_eq_true, if_false]
  exact List.ext_getElem? fun i => by simp

theorem Inv.return_ {s : State} (h : Inv s) (hempty : s.joinSet = [])
    (hcancel : s.cancellation = true ∨ s.ownerCancelled = true) (r : RuntimeResult Unit) :
    Inv (return_ s r) where
  held := by
    rw [return_tasks hempty]
    have hheld := h.held
    rwa [hempty] at hheld
  idle hnil := by
    rw [return_tasks hempty]
    exact ⟨(h.idle hnil).1, rfl⟩
  returned _ _ := rfl
  stopping _ := hcancel
  kept := h.kept

theorem Inv.breaks {s : State} (h : Inv s)
    (hcancel : s.cancellation = true ∨ s.ownerCancelled = true) :
    Inv { s with pc := .draining } where
  held := h.held
  idle := h.idle
  returned r hr := by cases hr
  stopping _ := hcancel
  kept := h.kept

theorem Inv.step {s t : State} {a : Action} (h : Inv s) (hc : Continues s a)
    (hs : CronSource.step s a = some t) : Inv t := by
  have hm := step_moves hs
  cases hm with
  | wake hpc hne => exact h.goTo_same nofun nofun
  | rest hpc hi => exact h.goTo_same nofun nofun
  | notDue hpc hi hnow => exact h.goTo_same nofun nofun
  | runsOut hpc hi hnow hdue =>
    exact absurd (CronJob.runsOut_of_error hdue) (hc _ _ _ hpc hi hnow)
  | misses hpc hi hnow hdue hskip => exact h.goTo List.length_set nofun nofun
  | @fires now i _ x _ next _ hpc hi hnow hdue hfire =>
    have hmoved : Inv
        { s with
          scheduled := s.scheduled.set i { x with next := next }
          pc := .processing now (i + 1) } := h.goTo List.length_set nofun nofun
    refine hmoved.dispatch ?_ nofun _ _ _
    intro hnil
    simp only [List.set_eq_nil_iff] at hnil
    rw [hnil] at hi
    cases hi
  | completes ht => exact h.endTask rfl ht
  | panics ht => exact h.endTask rfl ht
  | @joins i task hi hend hmem hpc =>
    refine ⟨h.held.erase hi hend, ?_, ?_, h.stopping, h.kept⟩
    · intro hnil
      rw [(h.idle hnil).2] at hmem
      cases hmem
    · intro r hr
      rw [h.returned r hr] at hmem
      cases hmem
  | cancel => exact ⟨h.held, h.idle, h.returned, fun _ => .inl rfl, h.kept⟩
  | cancelOwner => exact ⟨h.held, h.idle, h.returned, fun _ => .inr rfl, h.kept⟩
  | breaks hpc hcancel => exact h.breaks hcancel
  | leaves hpc hcancel hne => exact h.return_ (h.idle hne).2 hcancel _
  | drained hpc hempty => exact h.return_ hempty (h.stopping (.inl hpc)) _

/-- A step in which a schedule runs out loses the occurrence that was due. -/
theorem dropped_of_runsOut {s t : State} {a : Action} (hc : ¬ Continues s a)
    (hs : CronSource.step s a = some t) : t.dropped ≠ [] := by
  have hm := step_moves hs
  cases a with
  | process fuel =>
    simp only [Continues, not_forall, not_not] at hc
    obtain ⟨now, i, x, hpc, hi, hnow, hout⟩ := hc
    obtain ⟨n, e, he⟩ := hout
    cases hm with
    | runsOut hpc' hi' hnow' hdue => exact List.append_ne_nil_of_right_ne_nil _ nofun
    | rest hpc' hi' =>
      rw [hpc] at hpc'
      cases hpc'
      rw [hi] at hi'
      cases hi'
    | notDue hpc' hi' hnow' =>
      rw [hpc] at hpc'
      cases hpc'
      rw [hi] at hi'
      cases hi'
      exact absurd hnow (not_le.2 hnow')
    | misses hpc' hi' hnow' hdue hskip =>
      rw [hpc] at hpc'
      cases hpc'
      rw [hi] at hi'
      cases hi'
      cases CronJob.due_unique he hdue
    | fires hpc' hi' hnow' hdue hfire =>
      rw [hpc] at hpc'
      cases hpc'
      rw [hi] at hi'
      cases hi'
      cases CronJob.due_unique he hdue
  | _ => exact absurd trivial hc

/-- **Accepted occurrences complete** as long as no schedule runs out: what the scheduler promises
holds in every state that such runs reach, and the first step in which a due job's schedule runs out
breaks it. -/
theorem accepted_occurrences_complete (scheduled : List ScheduledJob) {s : State}
    (h : (system scheduled).Reach Continues s) :
    Honoured s ∧ ∀ a t, step s a = some t → (Honoured t ↔ Continues s a) := by
  have hinv : Inv s := System.Reach.invariant (inv_init scheduled)
    (fun _ _ _ hi hc hs => hi.step hc hs) h
  refine ⟨hinv.honoured, fun a t hs => ⟨fun ht => ?_, fun hc => (hinv.step hc hs).honoured⟩⟩
  by_contra hc
  exact dropped_of_runsOut hc hs ht.kept

/-- A zone whose wall time is UTC. -/
def utc : Tz where
  naiveLocal instant := instant
  fromLocalDatetime wall := .single wall

/-- An occurrence at every second. -/
def everySecond : Cron where
  findNextOccurrence _ after := .ok ((after / 1000000000 + 1) * 1000000000)
  isTimeMatching _ instant := .ok (decide (instant % 1000000000 = 0))

def jobOf (schedule : Cron) : CronJob where
  schedule := .calendar schedule
  timezone := utc
  overlapPolicy := .allow
  missedRunPolicy := .fireOnce

def secondJobs : List ScheduledJob := [⟨jobOf everySecond, 0⟩]

/-- A scheduler that is stopped while its occurrence runs returns when the occurrence is over. -/
theorem stopped_scheduler_honours : ∃ s, Honoured s ∧ s.pc = .returned (.ok ()) ∧
    s.tasks = [⟨0, 0, false, .completed⟩] := by
  have h1 : (system secondJobs).Reach Continues _ := .step (a := .wake 0) .init trivial rfl
  have h2 : (system secondJobs).Reach Continues _ := .step (a := .process 2) h1 (by
    intro now i x hpc hi hnow
    cases hpc
    cases hi
    exact CronJob.not_runsOut_of_ok (n := 2) (x := (0, 1000000000, false)) rfl) rfl
  have h3 : (system secondJobs).Reach Continues _ := .step (a := .process 0) h2 (by
    intro now i x hpc hi hnow
    cases hpc
    cases hi) rfl
  have h4 : (system secondJobs).Reach Continues _ := .step (a := .cancel) h3 trivial rfl
  have h5 : (system secondJobs).Reach Continues _ := .step (a := .observe) h4 trivial rfl
  have h6 : (system secondJobs).Reach Continues _ := .step (a := .complete 0) h5 trivial rfl
  have h7 : (system secondJobs).Reach Continues _ := .step (a := .joinNext 0) h6 trivial rfl
  have h8 : (system secondJobs).Reach Continues _ := .step (a := .drained) h7 trivial rfl
  exact ⟨_, (accepted_occurrences_complete secondJobs h8).1, rfl, rfl⟩

/-! ## A schedule that ends -/

/-- One occurrence, at the epoch, as of an expression with a year. -/
def onceAtEpoch : Cron where
  findNextOccurrence _ after :=
    if after < 0 then .ok 0 else .error "CronScheduler time search limit exceeded."
  isTimeMatching _ instant := .ok (decide (instant = 0))

/-- The two jobs as they are scheduled just before the epoch. -/
def endingJobs : List ScheduledJob :=
  [⟨jobOf everySecond, 0⟩, ⟨jobOf onceAtEpoch, 0⟩]

def endingRun : List Action := [.wake 0, .process 2, .process 2]

theorem endingRun_runs : ((system endingJobs).run (.init endingJobs) endingRun).isSome := by
  decide +kernel

/-- The last occurrence of one job is lost, the running occurrence of the other job is aborted, and
the scheduler is over, although nobody has cancelled it. -/
theorem schedule_end_aborts_others :
    ∃ s, (system endingJobs).Reachable s ∧
      s.pc = .returned (.error (.invalidConfiguration "CronScheduler time search limit exceeded.")) ∧
      s.tasks = [⟨0, 0, false, .aborted⟩] ∧ s.dropped = [(1, 0)] ∧
      s.cancellation = false ∧ s.ownerCancelled = false ∧ ¬ Honoured s := by
  refine ⟨_, System.reachable_get (S := system endingJobs) endingRun_runs, rfl, rfl, rfl, rfl, rfl, ?_⟩
  intro h
  have hkept := h.kept
  cases hkept

end CronSource

end ServiceLib
