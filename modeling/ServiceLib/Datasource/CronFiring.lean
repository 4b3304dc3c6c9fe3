import ServiceLib.Datasource.Cron

/-!
# When cron jobs fire

Follows `LocalSchedule::parse`, `CronJob::due`, `CronJob::dispatch` and the loop of `run_scheduler`
in `src/datasource/cron/croner.rs`. What `due` is for is said by the occurrences of a schedule
(`Occurs`): from one instant on, `next` leads from each to the one after it. `due` finds the last
occurrence that is not in the future, in a loop or, for an interval, by a division (`due_spec`).

**Theorem (`firing_discipline`).** The occurrences that are dispatched for a job have strictly
increasing instants. A wake-up leaves no job with an instant that is not in the future; for each job
it dispatches at most one occurrence, the latest one due, and none if the job skips missed runs and
more than one was due. Of a job that skips overlapping runs at most one occurrence runs, and its
flag is clear when none does.

The clock may show anything at a wake-up. `find_next_occurrence` finds later instants only.
-/

namespace ServiceLib

namespace CronSource

/-! ## Reading a schedule -/

def invalidInterval : RuntimeError :=
  .invalidConfiguration "local interval requires @every <10..86400000>ms"

def stripPrefix (pattern text : List Char) : Option (List Char) :=
  if pattern.isPrefixOf text then some (text.drop pattern.length) else none

def stripSuffix (pattern text : List Char) : Option (List Char) :=
  if pattern.isSuffixOf text then some (text.take (text.length - pattern.length)) else none

def isAsciiDigit (c : Char) : Bool := 48 ≤ c.toNat && c.toNat ≤ 57

/-- `str::parse::<i64>`, of a few digits. -/
def parseDigits (digits : List Char) : ℤ :=
  digits.foldl (fun value c => value * 10 + ((c.toNat : ℤ) - 48)) 0

/-- `LocalSchedule::parse`; `fromStr` is that of `croner::Cron`. -/
def LocalSchedule.parse (fromStr : String → Except String Cron) (expression : String) :
    RuntimeResult LocalSchedule :=
  if !"@every".toList.isPrefixOf expression.toList then
    match fromStr expression with
    | .ok schedule => .ok (.calendar schedule)
    | .error e => .error (.invalidConfiguration e)
  else
    match (stripPrefix "@every ".toList expression.toList).bind (stripSuffix "ms".toList) with
    | none => .error invalidInterval
    | some digits =>
      if digits.isEmpty || decide (8 < digits.length) || digits.head? == some '0' ||
          !digits.all isAsciiDigit then
        .error invalidInterval
      else
        let milliseconds := parseDigits digits
        if 10 ≤ milliseconds ∧ milliseconds ≤ 86400000 then .ok (.interval milliseconds)
        else .error invalidInterval

example : (LocalSchedule.parse (fun e => .error e) "@every 250ms").toOption =
    some (.interval 250) := rfl

theorem parse_interval {fromStr : String → Except String Cron} {expression : String} {m : ℤ}
    (h : LocalSchedule.parse fromStr expression = .ok (.interval m)) : 10 ≤ m ∧ m ≤ 86400000 := by
  simp only [LocalSchedule.parse] at h
  split at h
  · split at h <;> cases h
  · split at h
    · cases h
    · split_ifs at h with hdigits hrange
      cases h
      exact hrange

/-- The loop of `start`: every job gets its first occurrence. -/
def scheduleJobs (fuel : ℕ) (now : ℤ) : List CronJob → Option (RuntimeResult (List ScheduledJob))
  | [] => some (.ok [])
  | job :: jobs =>
    match job.next fuel now with
    | none => none
    | some (.error e) => some (.error e)
    | some (.ok next) =>
      match scheduleJobs fuel now jobs with
      | some (.ok scheduled) => some (.ok (⟨job, next⟩ :: scheduled))
      | other => other

/-! ## Occurrences -/

namespace CronJob

/-- `next` leads from one instant to the other. -/
def NextIs (job : CronJob) (after n : ℤ) : Prop := ∃ fuel, job.next fuel after = some (.ok n)

/-- The occurrences of a schedule, from the first one on. -/
inductive Occurs (job : CronJob) (first : ℤ) : ℤ → Prop
  | first : Occurs job first first
  | next {t n : ℤ} : Occurs job first t → job.NextIs t n → Occurs job first n

/-- The latest occurrence that is not in the future. -/
def LatestDue (job : CronJob) (first now latest : ℤ) : Prop :=
  job.Occurs first latest ∧ latest ≤ now ∧ ∀ t, job.Occurs first t → t ≤ now → t ≤ latest

/-- Is another occurrence due than the first? -/
def SeveralDue (job : CronJob) (first now : ℤ) : Prop :=
  ∃ t, job.Occurs first t ∧ t ≠ first ∧ t ≤ now

/-- Later instants only: what is known of `croner`, and of an interval that was parsed. -/
def Later (job : CronJob) : Prop :=
  match job.schedule with
  | .calendar schedule => ∀ after t,
      schedule.findNextOccurrence job.timezone after = .ok t → after < t
  | .interval milliseconds => 0 < milliseconds

/-- The instants of an interval are whole milliseconds, and not before the first of `chrono`. -/
def Canonical (job : CronJob) (t : ℤ) : Prop :=
  ∀ milliseconds, job.schedule = .interval milliseconds →
    t % 1000000 = 0 ∧ minMillis ≤ t / 1000000

end CronJob

theorem nextLoop_later {schedule : Cron} {timezone : Tz}
    (hlater : ∀ after t, schedule.findNextOccurrence timezone after = .ok t → after < t)
    {fuel : ℕ} {cursor n : ℤ} (h : nextLoop schedule timezone fuel cursor = some (.ok n)) :
    cursor < n := by
  induction fuel generalizing cursor with
  | zero => cases h
  | succ fuel ih =>
    simp only [nextLoop] at h
    cases hfind : schedule.findNextOccurrence timezone cursor with
    | error e => simp only [hfind, Option.some.injEq, reduceCtorEq] at h
    | ok candidate =>
      have hlt := hlater _ _ hfind
      simp only [hfind] at h
      cases hmatch : schedule.isTimeMatching timezone candidate with
      | error e => simp only [hmatch, Option.some.injEq, reduceCtorEq] at h
      | ok isMatch =>
        simp only [hmatch] at h
        split_ifs at h
        · cases h
          exact hlt
        · exact hlt.trans (ih h)

theorem fromTimestampMillis_eq_some {millis t : ℤ} (h : fromTimestampMillis millis = some t) :
    t = millis * 1000000 ∧ minMillis ≤ millis ∧ millis ≤ maxMillis := by
  simp only [fromTimestampMillis] at h
  split_ifs at h with hrange
  cases h
  exact ⟨rfl, hrange⟩

namespace CronJob

variable {job : CronJob} {fuel : ℕ} {first now t n latest following : ℤ} {missed : Bool}

theorem next_interval {m : ℤ} (hs : job.schedule = .interval m)
    (h : job.next fuel t = some (.ok n)) :
    n = (t / 1000000 + m) * 1000000 ∧ minMillis ≤ t / 1000000 + m ∧
      t / 1000000 + m ≤ maxMillis := by
  simp only [CronJob.next, hs] at h
  split at h
  · rename_i hsome
    cases h
    exact fromTimestampMillis_eq_some hsome
  · cases h

theorem nextIs_interval {m : ℤ} (hs : job.schedule = .interval m)
    (hmin : minMillis ≤ t / 1000000 + m) (hmax : t / 1000000 + m ≤ maxMillis) :
    job.NextIs t ((t / 1000000 + m) * 1000000) := by
  have hsome : fromTimestampMillis (timestampMillis t + m) = some ((t / 1000000 + m) * 1000000) :=
    if_pos ⟨hmin, hmax⟩
  exact ⟨0, by simp only [CronJob.next, hs, hsome]⟩

theorem next_later (hl : job.Later) (h : job.next fuel t = some (.ok n)) : t < n := by
  cases hs : job.schedule with
  | calendar schedule =>
    simp only [Later, hs] at hl
    simp only [CronJob.next, hs] at h
    exact nextLoop_later hl h
  | interval m =>
    simp only [Later, hs] at hl
    obtain ⟨rfl, -, -⟩ := next_interval hs h
    omega

theorem next_canonical (h : job.next fuel t = some (.ok n)) : job.Canonical n := by
  intro m hs
  obtain ⟨rfl, hmin, -⟩ := next_interval hs h
  omega

theorem NextIs.later (hl : job.Later) (h : job.NextIs t n) : t < n := by
  obtain ⟨fuel, h⟩ := h
  exact next_later hl h

theorem NextIs.unique {n' : ℤ} (h : job.NextIs t n) (h' : job.NextIs t n') : n = n' := by
  obtain ⟨k, h⟩ := h
  obtain ⟨l, h'⟩ := h'
  have hk := next_mono (le_max_left k l) h
  rw [next_mono (le_max_right k l) h'] at hk
  cases hk
  rfl

theorem Occurs.le (hl : job.Later) (h : job.Occurs first t) : first ≤ t := by
  induction h with
  | first => exact le_refl _
  | next _ hn ih => exact ih.trans (hn.later hl).le

/-- What follows an occurrence follows by way of the next one. -/
theorem Occurs.eq_or_next (h : job.Occurs first t) :
    t = first ∨ ∃ n, job.NextIs first n ∧ job.Occurs n t := by
  induction h with
  | first => exact Or.inl rfl
  | next _ hn ih =>
    rcases ih with rfl | ⟨k, hk, hocc⟩
    · exact Or.inr ⟨_, hn, .first⟩
    · exact Or.inr ⟨k, hk, hocc.next hn⟩

/-- Of two occurrences one leads to the other. -/
theorem Occurs.connected {u : ℤ} (ht : job.Occurs first t) (hu : job.Occurs first u) :
    job.Occurs t u ∨ job.Occurs u t := by
  induction hu with
  | first => exact Or.inr ht
  | @next v w _ hvw ih =>
    rcases ih with ih | ih
    · exact Or.inl (ih.next hvw)
    · rcases ih.eq_or_next with rfl | ⟨k, hk, hocc⟩
      · exact Or.inl (Occurs.first.next hvw)
      · rw [hvw.unique hk]
        exact Or.inr hocc

/-- Between an occurrence and the one after it there is none. -/
theorem Occurs.le_or_le (hl : job.Later) (hlatest : job.Occurs first latest)
    (hnext : job.NextIs latest following) (h : job.Occurs first t) :
    t ≤ latest ∨ following ≤ t := by
  rcases h.connected hlatest with hocc | hocc
  · exact Or.inl (hocc.le hl)
  · rcases hocc.eq_or_next with rfl | ⟨k, hk, hocc⟩
    · exact Or.inl (le_refl _)
    · rw [hnext.unique hk]
      exact Or.inr (hocc.le hl)

/-! ## What `due` finds -/

/-- The answer of `due`. -/
structure DueSpec (job : CronJob) (first now latest following : ℤ) (missed : Bool) : Prop where
  occurs : job.Occurs first latest
  le : latest ≤ now
  lt : now < following
  next : job.NextIs latest following
  missed : missed = true ↔ first < latest

theorem DueSpec.latestDue (hl : job.Later) (h : job.DueSpec first now latest following missed) :
    job.LatestDue first now latest := by
  refine ⟨h.occurs, h.le, fun t ht hle => ?_⟩
  rcases h.occurs.le_or_le hl h.next ht with hlatest | hfollowing
  · exact hlatest
  · exact absurd (hfollowing.trans hle) (not_le.2 h.lt)

theorem DueSpec.severalDue (hl : job.Later) (h : job.DueSpec first now latest following missed) :
    missed = true ↔ job.SeveralDue first now := by
  rw [h.missed]
  constructor
  · intro hlt
    exact ⟨latest, h.occurs, hlt.ne', h.le⟩
  · intro ⟨t, ht, hne, hle⟩
    have hfirst : first < t := lt_of_le_of_ne (ht.le hl) (Ne.symm hne)
    exact lt_of_lt_of_le hfirst ((h.latestDue hl).2.2 t ht hle)

/-- The invariant of the loop: `next` is the occurrence after `latest`, which is due. -/
theorem dueLoop_spec (hl : job.Later) {k : ℕ} {u v : ℤ} {b : Bool} (hocc : job.Occurs first u)
    (hle : u ≤ now) (hnext : job.NextIs u v) (hb : b = true ↔ first < u)
    (h : job.dueLoop fuel now k u v b = some (.ok (latest, following, missed))) :
    job.DueSpec first now latest following missed := by
  induction k generalizing u v b with
  | zero => cases h
  | succ k ih =>
    simp only [dueLoop] at h
    split_ifs at h with hc
    · cases hn : job.next fuel v with
      | none => simp only [hn, reduceCtorEq] at h
      | some x =>
        cases x with
        | error e => simp only [hn, Option.some.injEq, reduceCtorEq] at h
        | ok w =>
          simp only [hn] at h
          have hfirst : first < v := lt_of_le_of_lt (hocc.le hl) (hnext.later hl)
          exact ih (hocc.next hnext) hc ⟨fuel, hn⟩ (by simp [hfirst]) h
    · cases h
      exact ⟨hocc, hle, not_le.1 hc, hnext, hb⟩

/-- An interval leads from occurrence to occurrence, up to the last one in range. -/
theorem occurs_interval {m : ℤ} (hs : job.schedule = .interval m) (hm : 0 < m)
    (hcan : job.Canonical first) (k : ℕ)
    (hmax : first / 1000000 + k * m ≤ maxMillis) :
    job.Occurs first (first + k * m * 1000000) := by
  obtain ⟨haligned, hmin⟩ := hcan m hs
  induction k with
  | zero =>
    simp only [Nat.cast_zero, zero_mul, add_zero]
    exact .first
  | succ k ih =>
    have hmul : ((k + 1 : ℕ) : ℤ) * m = k * m + m := by
      rw [Nat.cast_succ, add_mul, one_mul]
    rw [hmul] at hmax ⊢
    have hkm : 0 ≤ (k : ℤ) * m := mul_nonneg (Nat.cast_nonneg k) hm.le
    have hprev := ih (by omega)
    have hdiv : (first + k * m * 1000000) / 1000000 = first / 1000000 + k * m := by omega
    have hnext := nextIs_interval (t := first + k * m * 1000000) hs (by omega) (by omega)
    rw [hdiv] at hnext
    have heq : (first / 1000000 + k * m + m) * 1000000 = first + (k * m + m) * 1000000 := by omega
    rw [heq] at hnext
    exact hprev.next hnext

/-- **What `due` finds** is the last occurrence that is not in the future, and the one after it. -/
theorem due_spec (hl : job.Later) (hcan : job.Canonical first) (hle : first ≤ now)
    (h : job.due fuel first now = some (.ok (latest, following, missed))) :
    job.DueSpec first now latest following missed := by
  cases hs : job.schedule with
  | calendar schedule =>
    simp only [due, hs] at h
    cases hn : job.next fuel first with
    | none => simp only [hn, reduceCtorEq] at h
    | some x =>
      cases x with
      | error e => simp only [hn, Option.some.injEq, reduceCtorEq] at h
      | ok v =>
        simp only [hn] at h
        exact dueLoop_spec hl .first hle ⟨fuel, hn⟩ (by simp) h
  | interval m =>
    simp only [Later, hs] at hl
    obtain ⟨haligned, hmin⟩ := hcan m hs
    have hq : numMilliseconds (now - first) = (now - first) / 1000000 :=
      Int.tdiv_eq_ediv_of_nonneg (by omega)
    have hq0 : 0 ≤ (now - first) / 1000000 := Int.ediv_nonneg (by omega) (by decide)
    have hk : (numMilliseconds (now - first)).tdiv m = (now - first) / 1000000 / m := by
      rw [hq, Int.tdiv_eq_ediv_of_nonneg hq0]
    simp only [due, hs, hk] at h
    generalize hkdef : (now - first) / 1000000 / m = k at h
    have hk0 : 0 ≤ k := hkdef ▸ Int.ediv_nonneg hq0 hl.le
    have hfloor : k * m ≤ (now - first) / 1000000 := hkdef ▸ Int.ediv_mul_le _ hl.ne'
    have hceil : (now - first) / 1000000 < k * m + m := by
      have hlt := Int.lt_ediv_add_one_mul_self ((now - first) / 1000000) hl
      rw [hkdef, add_mul, one_mul] at hlt
      exact hlt
    cases hn : job.next fuel (first + k * m * 1000000) with
    | none => simp only [hn, reduceCtorEq] at h
    | some x =>
      cases x with
      | error e => simp only [hn, Option.some.injEq, reduceCtorEq] at h
      | ok v =>
        simp only [hn, Option.some.injEq, Except.ok.injEq, Prod.mk.injEq] at h
        obtain ⟨rfl, rfl, rfl⟩ := h
        obtain ⟨hv, -, hmax⟩ := next_interval hs hn
        have hkm : 0 ≤ k * m := mul_nonneg hk0 hl.le
        have hocc := occurs_interval hs hl hcan k.toNat (by rw [Int.toNat_of_nonneg hk0]; omega)
        rw [Int.toNat_of_nonneg hk0] at hocc
        refine ⟨hocc, by omega, by omega, ⟨fuel, hn⟩, ?_⟩
        rw [decide_eq_true_iff]
        constructor
        · intro hpos
          have hpm : 0 < k * m := mul_pos hpos hl
          omega
        · intro hlt
          have hne : k ≠ 0 := by
            rintro rfl
            simp at hlt
          omega

end CronJob

/-! ## What a dispatch does -/

/-- The keys of the tasks: their job, and the occurrence. -/
def Task.key (task : Task) : ℕ × ℤ := (task.job, task.scheduledAt)

theorem dispatch_eq (s : State) (i : ℕ) (job : CronJob) (scheduledAt : ℤ) :
    dispatch s i job scheduledAt = s ∨
      ((job.overlapPolicy = .skip → s.running i = false) ∧ dispatch s i job scheduledAt =
        { s with
          running :=
            if job.overlapPolicy = .skip then Function.update s.running i true else s.running
          tasks := s.tasks ++ [⟨i, scheduledAt, decide (job.overlapPolicy = .skip), .running⟩]
          joinSet := s.joinSet ++ [s.tasks.length] }) := by
  by_cases howner : s.ownerCancelled = true
  · exact Or.inl (if_pos howner)
  · unfold dispatch
    rw [if_neg howner]
    cases hp : job.overlapPolicy with
    | allow => exact Or.inr ⟨nofun, rfl⟩
    | skip =>
      cases hr : s.running i with
      | false => exact Or.inr ⟨fun _ => rfl, rfl⟩
      | true => exact Or.inl rfl

@[simp] theorem dispatch_scheduled (s : State) (i : ℕ) (job : CronJob) (scheduledAt : ℤ) :
    (dispatch s i job scheduledAt).scheduled = s.scheduled := by
  rcases dispatch_eq s i job scheduledAt with h | ⟨-, h⟩ <;> rw [h]

@[simp] theorem dispatch_pc (s : State) (i : ℕ) (job : CronJob) (scheduledAt : ℤ) :
    (dispatch s i job scheduledAt).pc = s.pc := by
  rcases dispatch_eq s i job scheduledAt with h | ⟨-, h⟩ <;> rw [h]

theorem endTask_key {s t : State} {i : ℕ} {status : TaskStatus} (h : endTask s i status = some t) :
    t.tasks.map Task.key = s.tasks.map Task.key := by
  obtain ⟨task, running, hi, -, rfl⟩ := endTask_eq h
  rw [List.map_set]
  refine List.ext_getElem? fun j => ?_
  by_cases hij : i = j
  · subst hij
    rw [List.getElem?_set_self', List.getElem?_map, hi]
    rfl
  · rw [List.getElem?_set_ne hij]

theorem return_key (s : State) (r : RuntimeResult Unit) :
    (return_ s r).tasks.map Task.key = s.tasks.map Task.key := by
  refine List.ext_getElem? fun i => ?_
  simp only [return_, List.getElem?_map, List.getElem?_mapIdx, Option.map_map]
  cases s.tasks[i]? with
  | none => rfl
  | some task =>
    simp only [Option.map_some, Function.comp_apply]
    split_ifs <;> rfl

/-! ## Instants increase -/

/-- The instants that were dispatched, in order, and those that are next. -/
structure Disciplined (jobs : List CronJob) (scheduled : List ScheduledJob)
    (fired : List (ℕ × ℤ)) (pc : Pc) : Prop where
  jobs : scheduled.map ScheduledJob.job = jobs
  canonical : ∀ x ∈ scheduled, x.job.Canonical x.next
  before : ∀ i x, scheduled[i]? = some x → ∀ key ∈ fired, key.1 = i → key.2 < x.next
  increasing : fired.Pairwise fun a b => a.1 = b.1 → a.2 < b.2
  processed : ∀ now k, pc = .processing now k →
    ∀ i x, i < k → scheduled[i]? = some x → now < x.next

section Discipline

variable {jobs : List CronJob} {scheduled : List ScheduledJob} {fired : List (ℕ × ℤ)} {pc pc' : Pc}

theorem Disciplined.goTo (h : Disciplined jobs scheduled fired pc)
    (hpc : ∀ now k, pc' = .processing now k →
      ∀ i x, i < k → scheduled[i]? = some x → now < x.next) :
    Disciplined jobs scheduled fired pc' :=
  { h with processed := hpc }

/-- A job moves on to a later instant, and its occurrence is dispatched or not. -/
theorem Disciplined.fire (h : Disciplined jobs scheduled fired pc) {now : ℤ} {i : ℕ}
    (hpc : pc = .processing now i) {x : ScheduledJob} (hi : scheduled[i]? = some x) {latest n : ℤ}
    (hlatest : x.next ≤ latest) (hn : latest < n) (hnow : now < n) (hcan : x.job.Canonical n)
    {new : List (ℕ × ℤ)} (hnew : new = [] ∨ new = [(i, latest)]) :
    Disciplined jobs (scheduled.set i { x with next := n }) (fired ++ new)
      (.processing now (i + 1)) := by
  have hget : ∀ j y, (scheduled.set i { x with next := n })[j]? = some y →
      (j = i ∧ y = { x with next := n }) ∨ (j ≠ i ∧ scheduled[j]? = some y) := by
    intro j y hj
    by_cases hij : i = j
    · subst hij
      rw [List.getElem?_set_self', hi] at hj
      cases hj
      exact Or.inl ⟨rfl, rfl⟩
    · rw [List.getElem?_set_ne hij] at hj
      exact Or.inr ⟨Ne.symm hij, hj⟩
  refine ⟨?_, ?_, ?_, ?_, ?_⟩
  · rw [List.map_set, ← h.jobs]
    refine List.ext_getElem? fun j => ?_
    by_cases hij : i = j
    · subst hij
      rw [List.getElem?_set_self', List.getElem?_map, hi]
      rfl
    · rw [List.getElem?_set_ne hij]
  · intro y hy
    obtain ⟨j, hj⟩ := List.mem_iff_getElem?.1 hy
    rcases hget j y hj with ⟨-, rfl⟩ | ⟨-, hj⟩
    · exact hcan
    · exact h.canonical y (List.mem_iff_getElem?.2 ⟨j, hj⟩)
  · intro j y hj key hkey hjob
    have hold : ∀ key ∈ fired, key.1 = i → key.2 < n := fun key hkey hjob =>
      (h.before i x hi key hkey hjob).trans_le (hlatest.trans hn.le)
    rcases hget j y hj with ⟨rfl, rfl⟩ | ⟨hne, hj⟩
    · rcases List.mem_append.1 hkey with hkey | hkey
      · exact hold key hkey hjob
      · rcases hnew with rfl | rfl
        · cases hkey
        · rw [List.mem_singleton.1 hkey]
          exact hn
    · rcases List.mem_append.1 hkey with hkey | hkey
      · exact h.before j y hj key hkey hjob
      · rcases hnew with rfl | rfl
        · cases hkey
        · rw [List.mem_singleton.1 hkey] at hjob
          exact absurd hjob.symm hne
  · rw [List.pairwise_append]
    refine ⟨h.increasing, ?_, ?_⟩
    · rcases hnew with rfl | rfl
      · exact List.Pairwise.nil
      · exact List.pairwise_singleton _ _
    · intro a ha b hb hab
      rcases hnew with rfl | rfl
      · cases hb
      · rw [List.mem_singleton.1 hb] at hab ⊢
        exact (h.before i x hi a ha hab).trans_le hlatest
  · intro now' k hk j y hj hy
    cases hk
    rcases hget j y hy with ⟨-, rfl⟩ | ⟨hne, hy⟩
    · exact hnow
    · exact h.processed now i hpc j y (by omega) hy

end Discipline

/-- What a step dispatches. -/
def Fires (s : State) (new : List (ℕ × ℤ)) : Prop :=
  new = [] ∨ ∃ now i x latest, s.pc = .processing now i ∧ s.scheduled[i]? = some x ∧
    new = [(i, latest)] ∧ x.job.LatestDue x.next now latest ∧
    (x.job.missedRunPolicy = .skip → ¬ x.job.SeveralDue x.next now)

/-- The state of the scheduler is disciplined. -/
def State.Disciplined (jobs : List CronJob) (s : State) : Prop :=
  CronSource.Disciplined jobs s.scheduled (s.tasks.map Task.key) s.pc

section Step

variable {jobs : List CronJob} {s t : State} {a : Action}

/-- A step that dispatches nothing, and changes no `next`. -/
theorem State.Disciplined.still (h : s.Disciplined jobs) (hsched : t.scheduled = s.scheduled)
    (htasks : t.tasks.map Task.key = s.tasks.map Task.key)
    (hpc : ∀ now k, t.pc = .processing now k →
      ∀ i x, i < k → s.scheduled[i]? = some x → now < x.next) :
    ∃ new, t.tasks.map Task.key = s.tasks.map Task.key ++ new ∧ Fires s new ∧
      t.Disciplined jobs := by
  refine ⟨[], by rw [htasks, List.append_nil], Or.inl rfl, ?_⟩
  unfold State.Disciplined
  rw [hsched, htasks]
  exact h.goTo hpc

theorem dispatch_key (s : State) (i : ℕ) (job : CronJob) (scheduledAt : ℤ) :
    ∃ new, (new = [] ∨ new = [(i, scheduledAt)]) ∧
      (dispatch s i job scheduledAt).tasks.map Task.key = s.tasks.map Task.key ++ new := by
  rcases dispatch_eq s i job scheduledAt with h | ⟨-, h⟩
  · exact ⟨[], Or.inl rfl, by rw [h, List.append_nil]⟩
  · refine ⟨[(i, scheduledAt)], Or.inr rfl, ?_⟩
    rw [h, List.map_append]
    rfl

/-- **One step** dispatches at most one occurrence, the latest due of the job that is looked at. -/
theorem State.Disciplined.step (hl : ∀ job ∈ jobs, job.Later) (h : s.Disciplined jobs)
    (hs : CronSource.step s a = some t) :
    ∃ new, t.tasks.map Task.key = s.tasks.map Task.key ++ new ∧ Fires s new ∧
      t.Disciplined jobs := by
  have hjob : ∀ (i : ℕ) (x : ScheduledJob), s.scheduled[i]? = some x →
      x.job.Later ∧ x.job.Canonical x.next := by
    intro i x hi
    have hmem := List.mem_iff_getElem?.2 ⟨i, hi⟩
    refine ⟨hl _ ?_, h.canonical x hmem⟩
    rw [← h.jobs]
    exact List.mem_map_of_mem hmem
  have hsame : t.pc = s.pc → ∀ now k, t.pc = .processing now k →
      ∀ i x, i < k → s.scheduled[i]? = some x → now < x.next := by
    intro hpc now k hk
    exact h.processed now k (hpc ▸ hk)
  cases step_moves hs with
  | @wake now hpc hne =>
    refine h.still rfl rfl fun now' k hk i x hi => ?_
    cases hk
    omega
  | rest hpc hi => exact h.still rfl rfl nofun
  | @notDue now i fuel x hpc hi hnow =>
    refine h.still rfl rfl fun now' k hk j y hj hy => ?_
    cases hk
    rcases Nat.lt_succ_iff_lt_or_eq.1 hj with hlt | rfl
    · exact h.processed now i hpc j y hlt hy
    · rw [hi] at hy
      cases hy
      exact hnow
  | runsOut hpc hi hnow hdue => exact h.still rfl (return_key _ _) nofun
  | @misses now i fuel x lastDue next hpc hi hnow hdue hskip =>
    obtain ⟨hlater, hcan⟩ := hjob i x hi
    have hspec := CronJob.due_spec hlater hcan hnow hdue
    obtain ⟨k, hk⟩ := hspec.next
    refine ⟨[], (List.append_nil _).symm, Or.inl rfl, ?_⟩
    have hfire := h.fire hpc hi (hspec.occurs.le hlater) (hspec.next.later hlater) hspec.lt
      (CronJob.next_canonical hk) (Or.inl rfl)
    rwa [List.append_nil] at hfire
  | @fires now i fuel x lastDue next missed hpc hi hnow hdue hfire =>
    obtain ⟨hlater, hcan⟩ := hjob i x hi
    have hspec := CronJob.due_spec hlater hcan hnow hdue
    obtain ⟨k, hk⟩ := hspec.next
    obtain ⟨new, hnew, hkeys⟩ := dispatch_key
      { s with
        scheduled := s.scheduled.set i { x with next := next }
        pc := .processing now (i + 1) } i x.job lastDue
    refine ⟨new, hkeys, ?_, ?_⟩
    · rcases hnew with rfl | rfl
      · exact Or.inl rfl
      · refine Or.inr ⟨now, i, x, lastDue, hpc, hi, rfl, hspec.latestDue hlater, fun hskip => ?_⟩
        rw [← hspec.severalDue hlater]
        intro hmissed
        rw [hfire hmissed] at hskip
        cases hskip
    · unfold State.Disciplined
      rw [hkeys, dispatch_scheduled, dispatch_pc]
      exact h.fire hpc hi (hspec.occurs.le hlater) (hspec.next.later hlater) hspec.lt
        (CronJob.next_canonical hk) hnew
  | completes ht | panics ht =>
    have hkeys := endTask_key ht
    obtain ⟨task, running, -, -, rfl⟩ := endTask_eq ht
    exact h.still rfl hkeys (hsame rfl)
  | joins => exact h.still rfl rfl (hsame rfl)
  | cancel | cancelOwner => exact h.still rfl rfl (hsame rfl)
  | breaks => exact h.still rfl rfl nofun
  | leaves | drained => exact h.still rfl (return_key _ _) nofun

end Step

/-! ## One wake-up -/

/-- Since the wake-up began in `s`, these occurrences have been dispatched. -/
structure Wakeup (s : State) (now : ℤ) (t : State) (new : List (ℕ × ℤ)) : Prop where
  tasks : t.tasks.map Task.key = s.tasks.map Task.key ++ new
  once : (new.map Prod.fst).Nodup
  latest : ∀ key ∈ new, ∃ x, s.scheduled[key.1]? = some x ∧ x.job.LatestDue x.next now key.2 ∧
    (x.job.missedRunPolicy = .skip → ¬ x.job.SeveralDue x.next now)
  rest : ∀ now' k, t.pc = .processing now' k → now' = now ∧ (∀ key ∈ new, key.1 < k) ∧
    ∀ j, k ≤ j → t.scheduled[j]? = s.scheduled[j]?

def Action.isWake : Action → Bool
  | .wake _ => true
  | _ => false

/-- A step that stays in the wake-up looks at the next job, or is one of a task. -/
theorem step_rest {s t : State} {a : Action} (hs : step s a = some t) (hwake : a.isWake = false)
    {now : ℤ} {k : ℕ} (hpc : t.pc = .processing now k) :
    (s.pc = .processing now k ∧ t.scheduled = s.scheduled ∧
        t.tasks.map Task.key = s.tasks.map Task.key) ∨
      ∃ i, k = i + 1 ∧ s.pc = .processing now i ∧
        ∀ j, j ≠ i → t.scheduled[j]? = s.scheduled[j]? := by
  cases step_moves hs with
  | wake => cases hwake
  | rest | breaks => cases hpc
  | @notDue now' i fuel x hp hi hnow =>
    cases hpc
    exact Or.inr ⟨i, rfl, hp, fun _ _ => rfl⟩
  | runsOut | leaves | drained => cases hpc
  | @misses now' i fuel x lastDue next hp hi hnow hdue hskip =>
    cases hpc
    refine Or.inr ⟨i, rfl, hp, fun j hj => ?_⟩
    exact List.getElem?_set_ne (Ne.symm hj)
  | @fires now' i fuel x lastDue next missed hp hi hnow hdue hfire =>
    rw [dispatch_pc] at hpc
    cases hpc
    refine Or.inr ⟨i, rfl, hp, fun j hj => ?_⟩
    rw [dispatch_scheduled]
    exact List.getElem?_set_ne (Ne.symm hj)
  | completes ht | panics ht =>
    have hkeys := endTask_key ht
    obtain ⟨task, running, -, -, rfl⟩ := endTask_eq ht
    exact Or.inl ⟨hpc, rfl, hkeys⟩
  | joins | cancel | cancelOwner => exact Or.inl ⟨hpc, rfl, rfl⟩

theorem Wakeup.step {jobs : List CronJob} (hl : ∀ job ∈ jobs, job.Later) {s u t : State} {now : ℤ}
    {new : List (ℕ × ℤ)} (hd : u.Disciplined jobs) (h : Wakeup s now u new) {a : Action}
    (hs : CronSource.step u a = some t) (hwake : a.isWake = false) :
    ∃ new', Wakeup s now t new' := by
  obtain ⟨add, hkeys, hfires, -⟩ := hd.step hl hs
  rcases hfires with rfl | ⟨now', i, x, latest, hpc, hi, rfl, hlatest, hskip⟩
  · refine ⟨new, ⟨by rw [hkeys, h.tasks, List.append_nil], h.once, h.latest, fun now' k hk => ?_⟩⟩
    rcases step_rest hs hwake hk with ⟨hpc, hsched, -⟩ | ⟨i, rfl, hpc, hsched⟩
    · rw [hsched]
      exact h.rest now' k hpc
    · obtain ⟨hnow, hlt, hrest⟩ := h.rest now' i hpc
      refine ⟨hnow, fun key hkey => Nat.lt_succ_of_lt (hlt key hkey), fun j hj => ?_⟩
      rw [hsched j (by omega)]
      exact hrest j (by omega)
  · obtain ⟨rfl, hlt, hrest⟩ := h.rest now' i hpc
    have hsi : s.scheduled[i]? = some x := (hrest i le_rfl).symm.trans hi
    refine ⟨new ++ [(i, latest)], ⟨?_, ?_, ?_, ?_⟩⟩
    · rw [hkeys, h.tasks, List.append_assoc]
    · rw [List.map_append, List.map_singleton, ← List.concat_eq_append]
      refine h.once.concat fun hmem => ?_
      obtain ⟨key, hkey, hfst⟩ := List.mem_map.1 hmem
      have hk := hlt key hkey
      omega
    · intro key hkey
      rcases List.mem_append.1 hkey with hkey | hkey
      · exact h.latest key hkey
      · rw [List.mem_singleton.1 hkey]
        exact ⟨x, hsi, hlatest, hskip⟩
    · intro now₁ k hk
      rcases step_rest hs hwake hk with ⟨-, -, hsame⟩ | ⟨i', rfl, hpc', hsched⟩
      · -- a task was added, so the step was not one of a task
        rw [hkeys] at hsame
        have hlen := congrArg List.length hsame
        simp at hlen
      · rw [hpc] at hpc'
        cases hpc'
        refine ⟨rfl, fun key hkey => ?_, fun j hj => ?_⟩
        · rcases List.mem_append.1 hkey with hkey | hkey
          · exact Nat.lt_succ_of_lt (hlt key hkey)
          · rw [List.mem_singleton.1 hkey]
            exact Nat.lt_succ_self i
        · rw [hsched j (by omega)]
          exact hrest j (by omega)

/-- The induction is over the steps since the wake-up. -/
theorem Wakeup.run {jobs : List CronJob} (hl : ∀ job ∈ jobs, job.Later)
    {scheduled : List ScheduledJob} {s u t : State} {now : ℤ} {new : List (ℕ × ℤ)}
    (hd : u.Disciplined jobs) (h : Wakeup s now u new) {as : List Action}
    (hr : (system scheduled).run u as = some t) (hwake : ∀ a ∈ as, a.isWake = false) :
    ∃ new', Wakeup s now t new' := by
  induction as generalizing u new with
  | nil =>
    cases hr
    exact ⟨new, h⟩
  | cons a as ih =>
    simp only [System.run, Option.bind_eq_some_iff] at hr
    obtain ⟨v, hs, hr⟩ := hr
    obtain ⟨add, -, -, hv⟩ := hd.step hl hs
    obtain ⟨new', hnew⟩ := h.step hl hd hs (hwake a (List.mem_cons_self ..))
    exact ih hv hnew hr fun b hb => hwake b (List.mem_cons_of_mem a hb)

theorem wakeup_begin {s : State} {now : ℤ} (hpc : s.pc = .processing now 0) :
    Wakeup s now s [] := by
  refine ⟨(List.append_nil _).symm, List.nodup_nil, nofun, fun now' k hk => ?_⟩
  rw [hpc] at hk
  cases hk
  exact ⟨rfl, nofun, fun _ _ => rfl⟩

/-! ## One occurrence at a time -/

/-- The task runs, and holds the guard of job `i`. -/
def Task.Holds (i : ℕ) (task : Task) : Prop :=
  task.job = i ∧ task.guarded = true ∧ task.status = .running

/-- A flag is set while a task that holds its guard runs, and there is only one such task. -/
structure Flags (jobs : List CronJob) (tasks : List Task) (running : ℕ → Bool) : Prop where
  guarded : ∀ task ∈ tasks, ∀ job, jobs[task.job]? = some job → job.overlapPolicy = .skip →
    task.guarded = true
  flag : ∀ i, running i = true ↔ ∃ (a : ℕ) (task : Task), tasks[a]? = some task ∧ task.Holds i
  unique : ∀ (i a b : ℕ) (ta tb : Task), tasks[a]? = some ta → tasks[b]? = some tb →
    ta.Holds i → tb.Holds i → a = b

theorem flags_init (jobs : List CronJob) : Flags jobs [] fun _ => false where
  guarded := nofun
  flag i := by simp
  unique := by
    intro i a b ta tb ha
    cases ha

section Flags

variable {jobs : List CronJob} {tasks : List Task} {running : ℕ → Bool}

/-- A task that holds no guard is spawned. -/
theorem Flags.spawn (h : Flags jobs tasks running) {task : Task} (hg : task.guarded = false)
    (hjob : ∀ job, jobs[task.job]? = some job → job.overlapPolicy ≠ .skip) :
    Flags jobs (tasks ++ [task]) running := by
  have hnot : ∀ i, ¬ task.Holds i := by
    intro i hi
    have hguard := hi.2.1
    rw [hg] at hguard
    cases hguard
  have hold : ∀ (i a : ℕ) (x : Task), (tasks ++ [task])[a]? = some x → x.Holds i →
      tasks[a]? = some x := by
    intro i a x ha hx
    rcases Nat.lt_or_ge a tasks.length with hlt | hge
    · rwa [List.getElem?_append_left hlt] at ha
    · rw [List.getElem?_append_right hge, List.getElem?_singleton] at ha
      split_ifs at ha
      cases ha
      exact absurd hx (hnot i)
  refine ⟨?_, ?_, ?_⟩
  · intro x hx job hj hskip
    rcases List.mem_append.1 hx with hx | hx
    · exact h.guarded x hx job hj hskip
    · rw [List.mem_singleton.1 hx] at hj
      exact absurd hskip (hjob job hj)
  · intro i
    rw [h.flag i]
    constructor
    · intro ⟨a, x, ha, hx⟩
      refine ⟨a, x, ?_, hx⟩
      rw [List.getElem?_append_left (List.getElem?_eq_some_iff.1 ha).1]
      exact ha
    · intro ⟨a, x, ha, hx⟩
      exact ⟨a, x, hold i a x ha hx, hx⟩
  · intro i a b ta tb ha hb hta htb
    exact h.unique i a b ta tb (hold i a ta ha hta) (hold i b tb hb htb) hta htb

/-- A task is spawned with the guard of a job whose flag was clear. -/
theorem Flags.spawnGuarded (h : Flags jobs tasks running) {i : ℕ} (hclear : running i = false)
    {task : Task} (hholds : task.Holds i) :
    Flags jobs (tasks ++ [task]) (Function.update running i true) := by
  have hfree : ∀ (a : ℕ) (x : Task), tasks[a]? = some x → ¬ x.Holds i := by
    intro a x ha hx
    rw [(h.flag i).2 ⟨a, x, ha, hx⟩] at hclear
    cases hclear
  have hcases : ∀ (j a : ℕ) (x : Task), (tasks ++ [task])[a]? = some x → x.Holds j →
      (j = i ∧ a = tasks.length) ∨ (j ≠ i ∧ tasks[a]? = some x) := by
    intro j a x ha hx
    rcases Nat.lt_or_ge a tasks.length with hlt | hge
    · rw [List.getElem?_append_left hlt] at ha
      by_cases hj : j = i
      · exact absurd (hj ▸ hx) (hfree a x ha)
      · exact Or.inr ⟨hj, ha⟩
    · rw [List.getElem?_append_right hge, List.getElem?_singleton] at ha
      split_ifs at ha with hzero
      cases ha
      exact Or.inl ⟨hx.1.symm.trans hholds.1, by omega⟩
  refine ⟨?_, ?_, ?_⟩
  · intro x hx job hj hskip
    rcases List.mem_append.1 hx with hx | hx
    · exact h.guarded x hx job hj hskip
    · rw [List.mem_singleton.1 hx]
      exact hholds.2.1
  · intro j
    by_cases hj : j = i
    · subst hj
      rw [Function.update_self]
      refine ⟨fun _ => ⟨tasks.length, task, ?_, hholds⟩, fun _ => rfl⟩
      exact List.getElem?_concat_length ..
    · rw [Function.update_of_ne hj, h.flag j]
      constructor
      · intro ⟨a, x, ha, hx⟩
        refine ⟨a, x, ?_, hx⟩
        rw [List.getElem?_append_left (List.getElem?_eq_some_iff.1 ha).1]
        exact ha
      · intro ⟨a, x, ha, hx⟩
        rcases hcases j a x ha hx with ⟨rfl, -⟩ | ⟨-, ha⟩
        · exact absurd rfl hj
        · exact ⟨a, x, ha, hx⟩
  · intro j a b ta tb ha hb hta htb
    rcases hcases j a ta ha hta with ⟨rfl, rfl⟩ | ⟨hj, ha⟩
    · rcases hcases j b tb hb htb with ⟨-, rfl⟩ | ⟨hj, -⟩
      · rfl
      · exact absurd rfl hj
    · rcases hcases j b tb hb htb with ⟨rfl, -⟩ | ⟨-, hb⟩
      · exact absurd rfl hj
      · exact h.unique j a b ta tb ha hb hta htb

/-- A task that ran is over, and lets go of its guard. -/
theorem Flags.endTask (h : Flags jobs tasks running) {i : ℕ} {task : Task}
    (hi : tasks[i]? = some task) (hrun : task.status = .running) {status : TaskStatus}
    (hstatus : status ≠ .running) :
    Flags jobs (tasks.set i { task with status := status })
      (if task.guarded then Function.update running task.job false else running) := by
  have hset : ∀ (j a : ℕ) (x : Task), (tasks.set i { task with status := status })[a]? = some x →
      x.Holds j → a ≠ i ∧ tasks[a]? = some x := by
    intro j a x ha hx
    by_cases hia : i = a
    · subst hia
      rw [List.getElem?_set_self', hi] at ha
      cases ha
      exact absurd hx.2.2 hstatus
    · rw [List.getElem?_set_ne hia] at ha
      exact ⟨Ne.symm hia, ha⟩
  have hkeep : ∀ (j a : ℕ) (x : Task), a ≠ i → tasks[a]? = some x → x.Holds j →
      ∃ (a : ℕ) (x : Task), (tasks.set i { task with status := status })[a]? = some x ∧
        x.Holds j := by
    intro j a x hne ha hx
    refine ⟨a, x, ?_, hx⟩
    rw [List.getElem?_set_ne (Ne.symm hne)]
    exact ha
  refine ⟨?_, ?_, ?_⟩
  · intro x hx job hj hskip
    rcases List.mem_or_eq_of_mem_set hx with hx | rfl
    · exact h.guarded x hx job hj hskip
    · exact h.guarded task (List.mem_iff_getElem?.2 ⟨i, hi⟩) job hj hskip
  · intro j
    by_cases hg : task.guarded = true
    · rw [if_pos hg]
      by_cases hj : j = task.job
      · subst hj
        rw [Function.update_self]
        refine ⟨nofun, fun ⟨a, x, ha, hx⟩ => ?_⟩
        obtain ⟨hne, ha⟩ := hset _ a x ha hx
        exact absurd (h.unique _ a i x task ha hi hx ⟨rfl, hg, hrun⟩) hne
      · rw [Function.update_of_ne hj, h.flag j]
        constructor
        · intro ⟨a, x, ha, hx⟩
          refine hkeep j a x ?_ ha hx
          rintro rfl
          rw [hi] at ha
          cases ha
          exact hj hx.1.symm
        · intro ⟨a, x, ha, hx⟩
          exact ⟨a, x, (hset j a x ha hx).2, hx⟩
    · rw [if_neg hg, h.flag j]
      constructor
      · intro ⟨a, x, ha, hx⟩
        refine hkeep j a x ?_ ha hx
        rintro rfl
        rw [hi] at ha
        cases ha
        exact hg hx.2.1
      · intro ⟨a, x, ha, hx⟩
        exact ⟨a, x, (hset j a x ha hx).2, hx⟩
  · intro j a b ta tb ha hb hta htb
    exact h.unique j a b ta tb (hset j a ta ha hta).2 (hset j b tb hb htb).2 hta htb

end Flags

theorem Flags.return_ {jobs : List CronJob} {s : State} (h : Flags jobs s.tasks s.running)
    (r : RuntimeResult Unit) : Flags jobs (return_ s r).tasks (return_ s r).running := by
  have hget : ∀ (j a : ℕ) (x : Task), (CronSource.return_ s r).tasks[a]? = some x → x.Holds j →
      s.tasks[a]? = some x ∧ abortedByDrop s a x = false := by
    intro j a x ha hx
    simp only [CronSource.return_, List.getElem?_mapIdx, Option.map_eq_some_iff] at ha
    obtain ⟨task, htask, heq⟩ := ha
    split_ifs at heq with hab
    · rw [← heq] at hx
      cases hx.2.2
    · subst heq
      exact ⟨htask, by simpa using hab⟩
  have haborted : ∀ j, (s.tasks.zipIdx.any fun p =>
      abortedByDrop s p.2 p.1 && p.1.guarded && decide (p.1.job = j)) = true ↔
      ∃ (a : ℕ) (x : Task), s.tasks[a]? = some x ∧ x.Holds j ∧ abortedByDrop s a x = true := by
    intro j
    rw [List.any_eq_true]
    constructor
    · intro h
      obtain ⟨⟨x, a⟩, hmem, hx⟩ := h
      simp only [Bool.and_eq_true, decide_eq_true_eq] at hx
      obtain ⟨⟨hab, hg⟩, hjob⟩ := hx
      have hrun : x.status = .running := by
        simp only [abortedByDrop, Bool.and_eq_true, decide_eq_true_eq] at hab
        exact hab.2
      exact ⟨a, x, List.mk_mem_zipIdx_iff_getElem?.1 hmem, ⟨hjob, hg, hrun⟩, hab⟩
    · intro h
      obtain ⟨a, x, ha, hx, hab⟩ := h
      exact ⟨(x, a), List.mk_mem_zipIdx_iff_getElem?.2 ha, by simp [hab, hx.2.1, hx.1]⟩
  refine ⟨?_, ?_, ?_⟩
  · intro x hx job hj hskip
    obtain ⟨a, ha⟩ := List.mem_iff_getElem?.1 hx
    simp only [CronSource.return_, List.getElem?_mapIdx, Option.map_eq_some_iff] at ha
    obtain ⟨task, htask, heq⟩ := ha
    have hmem := List.mem_iff_getElem?.2 ⟨a, htask⟩
    split_ifs at heq
    · subst heq
      exact h.guarded task hmem job hj hskip
    · subst heq
      exact h.guarded task hmem job hj hskip
  · intro j
    change (s.running j && !(s.tasks.zipIdx.any fun p =>
      abortedByDrop s p.2 p.1 && p.1.guarded && decide (p.1.job = j))) = true ↔ _
    rw [Bool.and_eq_true, Bool.not_eq_true', ← Bool.not_eq_true, haborted j, h.flag j]
    constructor
    · intro h
      obtain ⟨⟨a, x, ha, hx⟩, hnone⟩ := h
      refine ⟨a, x, ?_, hx⟩
      have hab : ¬ abortedByDrop s a x = true := fun hab => hnone ⟨a, x, ha, hx, hab⟩
      simp only [CronSource.return_, List.getElem?_mapIdx, ha, Option.map_some, if_neg hab]
    · intro h
      obtain ⟨a, x, ha, hx⟩ := h
      obtain ⟨ha, hab⟩ := hget j a x ha hx
      refine ⟨⟨a, x, ha, hx⟩, fun hother => ?_⟩
      obtain ⟨b, y, hb, hy, hyab⟩ := hother
      obtain rfl := h.unique j a b x y ha hb hx hy
      rw [ha] at hb
      cases hb
      rw [hab] at hyab
      cases hyab
  · intro j a b ta tb ha hb hta htb
    exact h.unique j a b ta tb (hget j a ta ha hta).1 (hget j b tb hb htb).1 hta htb

/-- What `dispatch` does to the flags; `job` is the one at position `i`. -/
theorem Flags.dispatch {jobs : List CronJob} {s : State} (h : Flags jobs s.tasks s.running) {i : ℕ}
    {job : CronJob} (hi : jobs[i]? = some job) (scheduledAt : ℤ) :
    Flags jobs (dispatch s i job scheduledAt).tasks (dispatch s i job scheduledAt).running := by
  rcases dispatch_eq s i job scheduledAt with heq | ⟨hclear, heq⟩
  · rw [heq]
    exact h
  · rw [heq]
    by_cases hskip : job.overlapPolicy = .skip
    · simp only [if_pos hskip]
      exact h.spawnGuarded (hclear hskip) ⟨rfl, by simpa using hskip, rfl⟩
    · simp only [if_neg hskip]
      refine h.spawn (by simpa using hskip) fun job' hj => ?_
      rw [hi] at hj
      cases hj
      exact hskip

theorem Flags.step {jobs : List CronJob} {s t : State}
    (hjobs : s.scheduled.map ScheduledJob.job = jobs) (h : Flags jobs s.tasks s.running) {a : Action}
    (hs : CronSource.step s a = some t) :
    Flags jobs t.tasks t.running := by
  have hend : ∀ (i : ℕ) (status : TaskStatus), status ≠ .running →
      CronSource.endTask s i status = some t → Flags jobs t.tasks t.running := by
    intro i status hstatus ht
    simp only [CronSource.endTask] at ht
    split at ht
    · rename_i task hi
      split at ht
      · rename_i hrun
        cases ht
        exact h.endTask hi hrun hstatus
      · cases ht
    · cases ht
  cases step_moves hs with
  | wake | rest | notDue | misses | joins | cancel | cancelOwner | breaks => exact h
  | @runsOut now i fuel x e =>
    exact Flags.return_ (s := { s with dropped := s.dropped ++ [(i, x.next)] }) h (.error e)
  | @fires now i fuel x lastDue next missed hpc hi hnow hdue hfire =>
    refine Flags.dispatch (s := { s with
      scheduled := s.scheduled.set i { x with next := next }
      pc := .processing now (i + 1) }) h ?_ lastDue
    rw [← hjobs, List.getElem?_map, hi]
    rfl
  | completes ht => exact hend _ .completed (by simp) ht
  | panics ht => exact hend _ .panicked (by simp) ht
  | leaves | drained => exact h.return_ _

/-! ## The scheduler from its start on -/

theorem scheduleJobs_eq {fuel : ℕ} {now : ℤ} {jobs : List CronJob} {scheduled : List ScheduledJob}
    (h : scheduleJobs fuel now jobs = some (.ok scheduled)) :
    scheduled.map ScheduledJob.job = jobs ∧ ∀ x ∈ scheduled, x.job.Canonical x.next := by
  induction jobs generalizing scheduled with
  | nil =>
    cases h
    exact ⟨rfl, nofun⟩
  | cons job jobs ih =>
    simp only [scheduleJobs] at h
    cases hn : job.next fuel now with
    | none => simp only [hn, reduceCtorEq] at h
    | some r =>
      cases r with
      | error e => simp only [hn, Option.some.injEq, reduceCtorEq] at h
      | ok next =>
        simp only [hn] at h
        split at h
        · rename_i rest hrest
          cases h
          obtain ⟨hmap, hcan⟩ := ih hrest
          refine ⟨by rw [List.map_cons, hmap], fun x hx => ?_⟩
          rcases List.mem_cons.1 hx with rfl | hx
          · exact CronJob.next_canonical hn
          · exact hcan x hx
        · rename_i hother
          exact absurd h (hother scheduled)

theorem disciplined_reachable {jobs : List CronJob} (hl : ∀ job ∈ jobs, job.Later) {fuel : ℕ}
    {now : ℤ} {scheduled : List ScheduledJob}
    (hstart : scheduleJobs fuel now jobs = some (.ok scheduled)) {s : State}
    (h : (system scheduled).Reachable s) :
    s.Disciplined jobs ∧ Flags jobs s.tasks s.running := by
  obtain ⟨hjobs, hcan⟩ := scheduleJobs_eq hstart
  refine System.Reachable.invariant
    (I := fun s => s.Disciplined jobs ∧ Flags jobs s.tasks s.running)
    ⟨⟨hjobs, hcan, nofun, List.Pairwise.nil, nofun⟩, flags_init jobs⟩
    (fun s a t hi hs => ?_) h
  obtain ⟨new, -, -, ht⟩ := hi.1.step hl hs
  exact ⟨ht, hi.2.step hi.1.jobs hs⟩

/-- **When cron jobs fire.** From the start of the scheduler on, whatever the clock shows: the
occurrences that were dispatched for a job have increasing instants; when a wake-up is over, every
job's `next` is later than what the clock showed; since a wake-up began, at most one occurrence was
dispatched for each job, the latest due, and only if it was the only one or the job does not skip
missed runs; and of a job that skips overlapping runs at most one occurrence runs, its flag being
clear when none does. -/
theorem firing_discipline (fromStr : String → Except String Cron) (jobs : List CronJob)
    (hparse : ∀ job ∈ jobs, ∃ expression, LocalSchedule.parse fromStr expression = .ok job.schedule)
    (hcroner : ∀ job ∈ jobs, ∀ schedule, job.schedule = .calendar schedule → ∀ after t,
      schedule.findNextOccurrence job.timezone after = .ok t → after < t)
    {fuel : ℕ} {started : ℤ} {scheduled : List ScheduledJob}
    (hstart : scheduleJobs fuel started jobs = some (.ok scheduled)) {s : State}
    (h : (system scheduled).Reachable s) :
    (s.tasks.Pairwise fun a b => a.job = b.job → a.scheduledAt < b.scheduledAt) ∧
    (∀ now i a t, s.pc = .processing now i → step s a = some t → t.pc = .selecting →
      ∀ x ∈ t.scheduled, now < x.next) ∧
    (∀ now, s.pc = .processing now 0 → ∀ as t, (system scheduled).run s as = some t →
      (∀ a ∈ as, a.isWake = false) → ∃ new, Wakeup s now t new) ∧
    ∀ i job, jobs[i]? = some job → job.overlapPolicy = .skip →
      (∀ (a b : ℕ) (ta tb : Task), s.tasks[a]? = some ta → s.tasks[b]? = some tb → ta.job = i →
        tb.job = i → ta.status = .running → tb.status = .running → a = b) ∧
      ((∀ task ∈ s.tasks, task.job = i → task.status ≠ .running) → s.running i = false) := by
  have hl : ∀ job ∈ jobs, job.Later := by
    intro job hjob
    unfold CronJob.Later
    cases hs : job.schedule with
    | calendar schedule => exact hcroner job hjob schedule hs
    | interval m =>
      obtain ⟨expression, hp⟩ := hparse job hjob
      rw [hs] at hp
      have hm := parse_interval hp
      exact lt_of_lt_of_le (by decide) hm.1
  obtain ⟨hd, hflags⟩ := disciplined_reachable hl hstart h
  refine ⟨List.pairwise_map.1 hd.increasing, ?_, ?_, ?_⟩
  · intro now i a t hpc hs ht x hx
    obtain ⟨j, hj⟩ := List.mem_iff_getElem?.1 hx
    cases step_moves hs with
    | @rest now' i' fuel hpc' hi =>
      rw [hpc] at hpc'
      cases hpc'
      refine hd.processed now i hpc j x ?_ hj
      have hjlen := (List.getElem?_eq_some_iff.1 hj).1
      exact lt_of_lt_of_le hjlen (List.getElem?_eq_none_iff.1 hi)
    | wake hpc' => rw [hpc] at hpc'; cases hpc'
    | notDue | misses | runsOut | breaks | leaves | drained => cases ht
    | fires => rw [dispatch_pc] at ht; cases ht
    | completes hend | panics hend =>
      obtain ⟨task, running, -, -, rfl⟩ := endTask_eq hend
      exact absurd (hpc.symm.trans ht) nofun
    | joins | cancel | cancelOwner => exact absurd (hpc.symm.trans ht) nofun
  · intro now hpc as t hr hwake
    exact (wakeup_begin hpc).run hl hd hr hwake
  · intro i job hi hskip
    have hguard : ∀ (a : ℕ) (x : Task), s.tasks[a]? = some x → x.job = i → x.status = .running →
        x.Holds i := by
      intro a x ha hjob hrun
      refine ⟨hjob, ?_, hrun⟩
      exact hflags.guarded x (List.mem_iff_getElem?.2 ⟨a, ha⟩) job (hjob ▸ hi) hskip
    refine ⟨fun a b ta tb ha hb hta htb hra hrb => ?_, fun hnone => ?_⟩
    · exact hflags.unique i a b ta tb ha hb (hguard a ta ha hta hra) (hguard b tb hb htb hrb)
    · by_contra hset
      obtain ⟨a, x, ha, hx⟩ := (hflags.flag i).1 (by simpa using hset)
      exact hnone x (List.mem_iff_getElem?.2 ⟨a, ha⟩) hx.1 hx.2.2

/-- A job of each kind; the first one skips overlapping and missed runs. -/
def mixedJobs : List CronJob :=
  [⟨.interval 10, utc, .skip, .skip⟩, ⟨.calendar everySecond, utc, .allow, .fireOnce⟩]

def mixedScheduled : List ScheduledJob :=
  [⟨⟨.interval 10, utc, .skip, .skip⟩, 10000000⟩,
    ⟨⟨.calendar everySecond, utc, .allow, .fireOnce⟩, 1000000000⟩]

/-- A wake-up on time, one after a jump of the clock, and one after a jump back. -/
def mixedRun : List Action :=
  [.wake 10000001, .process 9, .process 9, .process 9, .wake 3500000000, .process 9, .process 9,
    .process 9, .wake 5, .process 9]

theorem mixedRun_runs :
    ((system mixedScheduled).run (system mixedScheduled).init mixedRun).isSome := by
  decide +kernel

/-- The interval fires once, and then misses several runs; the calendar fires the latest due. -/
theorem mixed_jobs_fire : ∃ s, (system mixedScheduled).Reachable s ∧
    s.tasks.map Task.key = [(0, 10000000), (1, 3000000000)] ∧
    s.scheduled.map ScheduledJob.next = [3510000000, 4000000000] ∧
    (s.tasks.Pairwise fun a b => a.job = b.job → a.scheduledAt < b.scheduledAt) := by
  have hreach := System.reachable_get (S := system mixedScheduled) mixedRun_runs
  refine ⟨_, hreach, by decide +kernel, by decide +kernel, ?_⟩
  have hstart : scheduleJobs 9 0 mixedJobs = some (.ok mixedScheduled) := rfl
  refine (firing_discipline (fun _ => .ok everySecond) mixedJobs ?_ ?_ hstart hreach).1
  · intro job hjob
    rcases List.mem_pair.1 hjob with rfl | rfl
    · exact ⟨"@every 10ms", rfl⟩
    · exact ⟨"* * * * * *", rfl⟩
  · intro job hjob schedule hs after t ht
    rcases List.mem_pair.1 hjob with rfl | rfl
    · cases hs
    · cases hs
      cases ht
      omega

end CronSource

end ServiceLib
