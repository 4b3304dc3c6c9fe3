import ServiceLib.Datasource.CronFiring

/-!
# Catching up with an interval

`CronJob::due` follows a calendar schedule from occurrence to occurrence. For an interval it has a
closed form: it truncates the time since `first` to milliseconds, divides by the interval and
multiplies back.

**Theorem (`interval_due_eq_loop`).** For an interval that `LocalSchedule::parse` accepts the closed
form answers what the loop answers, down to the error at the end of `chrono`'s range, and no sum or
product on the way overflows.

The idea: the occurrences are `tick k`, and `k` is the number of those after the first that are not
in the future. The loop reaches `tick k` in `k` rounds, and whether there is a `tick (k + 1)` is the
only question left; the closed form asks it with the same call of `next`.
-/

namespace ServiceLib

namespace CronSource

/-! ## The arithmetic of the code -/

/-- An `i64`; `none`: the operation has overflowed. -/
def i64 (x : ℤ) : Option ℤ := if -2 ^ 63 ≤ x ∧ x < 2 ^ 63 then some x else none

/-- A `TimeDelta` of that many nanoseconds: within `i64::MAX` milliseconds. -/
def timeDelta (nanos : ℤ) : Option ℤ :=
  if -((2 ^ 63 - 1) * 1000000) ≤ nanos ∧ nanos ≤ (2 ^ 63 - 1) * 1000000 then some nanos else none

/-- The instants that `chrono` represents. -/
def InRange (instant : ℤ) : Prop :=
  minMillis * 1000000 ≤ instant ∧ instant ≤ maxMillis * 1000000 + 999999

instance (instant : ℤ) : Decidable (InRange instant) := inferInstanceAs (Decidable (_ ∧ _))

/-- A `DateTime<Utc>`; the addition of a `TimeDelta` panics outside the range. -/
def dateTime (instant : ℤ) : Option ℤ := if InRange instant then some instant else none

theorem i64_eq_some {x : ℤ} (h : -2 ^ 63 ≤ x ∧ x < 2 ^ 63) : i64 x = some x := if_pos h

theorem timeDelta_eq_some {x : ℤ}
    (h : -((2 ^ 63 - 1) * 1000000) ≤ x ∧ x ≤ (2 ^ 63 - 1) * 1000000) : timeDelta x = some x :=
  if_pos h

theorem dateTime_eq_some {x : ℤ} (h : InRange x) : dateTime x = some x := if_pos h

namespace CronJob

/-- `CronJob::next` of an interval, with every intermediate value in its type. -/
def nextI64 (milliseconds after : ℤ) : Option (RuntimeResult ℤ) := do
  let millis ← i64 (timestampMillis after)
  let sum ← i64 (millis + milliseconds)
  match fromTimestampMillis sum with
  | some instant => some (.ok instant)
  | none => some (.error (.invalidConfiguration "interval timestamp out of range"))

/-- `CronJob::due` of an interval, with every intermediate value in its type; `none`: an operation
has overflowed. -/
def dueI64 (milliseconds first now : ℤ) : Option (RuntimeResult (ℤ × ℤ × Bool)) := do
  let delta ← timeDelta (now - first)
  let millis ← i64 (numMilliseconds delta)
  let skipped ← i64 (millis.tdiv milliseconds)
  let product ← i64 (skipped * milliseconds)
  let back ← timeDelta (product * 1000000)
  let latest ← dateTime (first + back)
  match ← nextI64 milliseconds latest with
  | .error e => some (.error e)
  | .ok following => some (.ok (latest, following, decide (0 < skipped)))

/-- The iterative definition of `due`, as the code has it for calendar schedules. -/
def dueByLoop (job : CronJob) (fuel : ℕ) (first now : ℤ) :
    Option (RuntimeResult (ℤ × ℤ × Bool)) :=
  match job.next fuel first with
  | none => none
  | some (.error e) => some (.error e)
  | some (.ok next) => job.dueLoop fuel now fuel first next false

theorem due_calendar {job : CronJob} {schedule : Cron} (h : job.schedule = .calendar schedule)
    (fuel : ℕ) (first now : ℤ) : job.due fuel first now = job.dueByLoop fuel first now := by
  cases hnext : job.next fuel first with
  | none => simp only [due, dueByLoop, h, hnext]
  | some r => cases r <;> simp only [due, dueByLoop, h, hnext]

/-! ## The occurrences of an interval -/

/-- The `k`-th occurrence after `first`. -/
def tick (m first : ℤ) (k : ℕ) : ℤ := first + k * m * 1000000

theorem tick_zero (m first : ℤ) : tick m first 0 = first := by simp [tick]

theorem tick_succ (m first : ℤ) (k : ℕ) : tick m first (k + 1) = tick m first k + m * 1000000 := by
  simp only [tick, Nat.cast_add, Nat.cast_one]
  ring

theorem tick_mono {m : ℤ} (hm : 0 < m) (first : ℤ) {j k : ℕ} (h : j ≤ k) :
    tick m first j ≤ tick m first k := by
  induction k, h using Nat.le_induction with
  | base => exact le_rfl
  | succ k _ ih =>
    rw [tick_succ]
    omega

/-- The ticks are whole milliseconds, as `first` is. -/
theorem tick_mod {m first : ℤ} (h : first % 1000000 = 0) (k : ℕ) :
    tick m first k % 1000000 = 0 := by
  simp only [tick]
  omega

/-- How many occurrences after the first are due. -/
def skipped (m first now : ℤ) : ℕ := ((now - first) / 1000000 / m).toNat

variable {job : CronJob} {fuel k : ℕ} {m first now : ℤ}

theorem skipped_cast (hm : 0 < m) (hle : first ≤ now) :
    (skipped m first now : ℤ) = (now - first) / 1000000 / m :=
  Int.toNat_of_nonneg (Int.ediv_nonneg (Int.ediv_nonneg (by omega) (by decide)) hm.le)

/-- The last tick that is due. The time since `first` may have a part below a millisecond. -/
theorem tick_skipped (hm : 0 < m) (hle : first ≤ now) :
    tick m first (skipped m first now) ≤ now ∧
      now < tick m first (skipped m first now + 1) := by
  have hfloor : (now - first) / 1000000 / m * m ≤ (now - first) / 1000000 :=
    Int.ediv_mul_le _ hm.ne'
  have hceil := Int.lt_ediv_add_one_mul_self ((now - first) / 1000000) hm
  rw [add_mul, one_mul] at hceil
  rw [tick_succ]
  simp only [tick, skipped_cast hm hle]
  omega

/-- No later tick is due. -/
theorem le_skipped (hm : 0 < m) (hle : first ≤ now) {j : ℕ} (h : tick m first j ≤ now) :
    j ≤ skipped m first now := by
  by_contra hlt
  have hmono := tick_mono hm first (Nat.succ_le_of_lt (not_le.1 hlt))
  exact absurd ((tick_skipped hm hle).2.trans_le hmono) (not_lt.2 h)

variable (fuel) in
/-- The occurrence after a tick is the next tick, as long as `chrono` represents it. -/
theorem next_tick (hs : job.schedule = .interval m) (hm : 0 < m) (haligned : first % 1000000 = 0)
    (hmin : minMillis * 1000000 ≤ first) :
    job.next fuel (tick m first k) =
      if InRange (tick m first (k + 1)) then some (.ok (tick m first (k + 1)))
      else some (.error (.invalidConfiguration "interval timestamp out of range")) := by
  have hmod := tick_mod (m := m) haligned k
  have hfirst := tick_mono hm first (Nat.zero_le k)
  rw [tick_zero] at hfirst
  have hstart := hmin.trans hfirst
  have hvalue : (timestampMillis (tick m first k) + m) * 1000000 = tick m first (k + 1) := by
    rw [tick_succ, timestampMillis]
    omega
  have hrange : InRange (tick m first (k + 1)) ↔
      minMillis ≤ timestampMillis (tick m first k) + m ∧
        timestampMillis (tick m first k) + m ≤ maxMillis := by
    rw [← hvalue, InRange]
    omega
  simp only [CronJob.next, hs, fromTimestampMillis, ← hrange, hvalue]
  split_ifs <;> rfl

/-! ## The loop -/

/-- What there is to answer when `tick k` is the last occurrence that is due. -/
def answer (m first : ℤ) (k : ℕ) : Option (RuntimeResult (ℤ × ℤ × Bool)) :=
  if InRange (tick m first (k + 1)) then
    some (.ok (tick m first k, tick m first (k + 1), decide (0 < k)))
  else some (.error (.invalidConfiguration "interval timestamp out of range"))

variable (fuel) in
/-- From `tick j` on the loop takes as many rounds as there are ticks left. -/
theorem dueLoop_tick (hs : job.schedule = .interval m) (hm : 0 < m)
    (haligned : first % 1000000 = 0) (hmin : minMillis * 1000000 ≤ first) (hnow : InRange now)
    (hle : tick m first k ≤ now) (hlt : now < tick m first (k + 1)) (rounds : ℕ) {j : ℕ} (hj : j ≤ k)
    (hnext : InRange (tick m first (j + 1))) (hrounds : k - j < rounds) :
    job.dueLoop fuel now rounds (tick m first j) (tick m first (j + 1)) (decide (0 < j)) =
      answer m first k := by
  induction rounds generalizing j with
  | zero => omega
  | succ rounds ih =>
    rcases hj.eq_or_lt with rfl | hjk
    · rw [dueLoop, if_neg (not_le.2 hlt), answer, if_pos hnext]
    · have hdue : tick m first (j + 1) ≤ now := (tick_mono hm first hjk).trans hle
      rw [dueLoop, if_pos hdue, next_tick fuel hs hm haligned hmin]
      by_cases hrange : InRange (tick m first (j + 1 + 1))
      · rw [if_pos hrange]
        exact ih hjk hrange (by omega)
      · -- only the tick after the last one that is due can be out of range
        have hlast : j + 1 = k := by
          by_contra hne
          have hmono := tick_mono hm first (show j + 1 + 1 ≤ k by omega)
          have hfirst := tick_mono hm first (Nat.zero_le (j + 1 + 1))
          rw [tick_zero] at hfirst
          exact hrange ⟨hmin.trans hfirst, (hmono.trans hle).trans hnow.2⟩
        subst hlast
        rw [if_neg hrange, answer, if_neg hrange]

theorem dueByLoop_interval (hs : job.schedule = .interval m) (hm : 0 < m)
    (haligned : first % 1000000 = 0) (hmin : minMillis * 1000000 ≤ first) (hnow : InRange now)
    (hle : tick m first k ≤ now) (hlt : now < tick m first (k + 1)) (hfuel : k < fuel) :
    job.dueByLoop fuel first now = answer m first k := by
  have hfirst := next_tick fuel (k := 0) hs hm haligned hmin
  rw [tick_zero] at hfirst
  rw [dueByLoop, hfirst]
  by_cases hrange : InRange (tick m first (0 + 1))
  · rw [if_pos hrange]
    have hloop := dueLoop_tick fuel hs hm haligned hmin hnow hle hlt fuel (Nat.zero_le k) hrange
      (by omega)
    rw [tick_zero] at hloop
    exact hloop
  · have hk : k = 0 := by
      by_contra hne
      have hmono := tick_mono hm first (show 0 + 1 ≤ k by omega)
      have hzero := tick_mono hm first (Nat.zero_le (0 + 1))
      rw [tick_zero] at hzero
      exact hrange ⟨hmin.trans hzero, (hmono.trans hle).trans hnow.2⟩
    subst hk
    rw [if_neg hrange, answer, if_neg hrange]

/-! ## The closed form -/

theorem numMilliseconds_sub (hle : first ≤ now) :
    numMilliseconds (now - first) = (now - first) / 1000000 :=
  Int.tdiv_eq_ediv_of_nonneg (by omega)

/-- The closed form finds the last tick that is due. -/
theorem due_interval (hs : job.schedule = .interval m) (hm : 0 < m)
    (haligned : first % 1000000 = 0) (hmin : minMillis * 1000000 ≤ first) (hle : first ≤ now) :
    job.due fuel first now = answer m first (skipped m first now) := by
  have hskipped : (numMilliseconds (now - first)).tdiv m = (skipped m first now : ℤ) := by
    rw [numMilliseconds_sub hle, skipped_cast hm hle,
      Int.tdiv_eq_ediv_of_nonneg (Int.ediv_nonneg (by omega) (by decide))]
  have hnext := next_tick fuel (k := skipped m first now) hs hm haligned hmin
  have hlatest : first + (skipped m first now : ℤ) * m * 1000000 =
      tick m first (skipped m first now) := rfl
  simp only [due, hs, hskipped, hlatest, hnext, answer]
  by_cases hrange : InRange (tick m first (skipped m first now + 1))
  · simp only [if_pos hrange, Nat.cast_pos]
  · simp only [if_neg hrange]

variable (fuel) in
/-- The bounds of `chrono` and of an interval leave room in 64 bits. -/
theorem nextI64_eq (hs : job.schedule = .interval m) (hm : 10 ≤ m ∧ m ≤ 86400000) {t : ℤ}
    (ht : InRange t) : nextI64 m t = job.next fuel t := by
  obtain ⟨hmin, hmax⟩ := ht
  simp only [minMillis, maxMillis] at hmin hmax
  have hmillis : -8334601228800000 ≤ timestampMillis t ∧ timestampMillis t ≤ 8210266876799999 := by
    rw [timestampMillis]
    omega
  rw [nextI64, i64_eq_some (by omega)]
  change (i64 (timestampMillis t + m)).bind _ = _
  rw [i64_eq_some (by omega)]
  cases hfrom : fromTimestampMillis (timestampMillis t + m) <;>
    simp only [Option.bind_some, CronJob.next, hs, hfrom]

/-- No intermediate value of the closed form leaves its type. -/
theorem dueI64_eq (hs : job.schedule = .interval m) (hm : 10 ≤ m ∧ m ≤ 86400000) (hle : first ≤ now)
    (hfirst : InRange first) (hnow : InRange now) : dueI64 m first now = job.due fuel first now := by
  have hm0 : 0 < m := by omega
  have hskipped : ((now - first) / 1000000).tdiv m = (skipped m first now : ℤ) := by
    rw [skipped_cast hm0 hle,
      Int.tdiv_eq_ediv_of_nonneg (Int.ediv_nonneg (by omega) (by decide))]
  have hdue := (tick_skipped hm0 hle).1
  have hafter := tick_mono hm0 first (Nat.zero_le (skipped m first now))
  rw [tick_zero] at hafter
  have hlatest : InRange (tick m first (skipped m first now)) :=
    ⟨hfirst.1.trans hafter, hdue.trans hnow.2⟩
  have hlast : first + (skipped m first now : ℤ) * m * 1000000 =
      tick m first (skipped m first now) := rfl
  have hproduct : 0 ≤ (skipped m first now : ℤ) * m := mul_nonneg (Nat.cast_nonneg _) hm0.le
  have hquotient : (skipped m first now : ℤ) ≤ (skipped m first now : ℤ) * m :=
    le_mul_of_one_le_right (Nat.cast_nonneg _) hm0
  obtain ⟨hmin, -⟩ := hfirst
  obtain ⟨-, hmax⟩ := hnow
  simp only [minMillis, maxMillis] at hmin hmax
  have hdelta : timeDelta (now - first) = some (now - first) := timeDelta_eq_some (by omega)
  have hmillis : i64 ((now - first) / 1000000) = some ((now - first) / 1000000) :=
    i64_eq_some (by omega)
  have hskip : i64 (skipped m first now : ℤ) = some (skipped m first now : ℤ) :=
    i64_eq_some (by omega)
  have hprod : i64 ((skipped m first now : ℤ) * m) = some ((skipped m first now : ℤ) * m) :=
    i64_eq_some (by omega)
  have hback : timeDelta ((skipped m first now : ℤ) * m * 1000000) =
      some ((skipped m first now : ℤ) * m * 1000000) := timeDelta_eq_some (by omega)
  simp only [dueI64, hdelta, numMilliseconds_sub hle, hmillis, hskipped, hskip, hprod, hback, hlast,
    dateTime_eq_some hlatest, nextI64_eq fuel hs hm hlatest, Option.bind_eq_bind,
    Option.bind_some, due, hs]
  cases job.next fuel (tick m first (skipped m first now)) with
  | none => rfl
  | some r => cases r <;> rfl

/-! ## Main result -/

/-- **Catching up in constant time.** For an interval that was parsed, a `first` in whole
milliseconds and any `now` from there on, `due` answers with the last occurrence `tick k` that is
due, the one after it, and whether there was one before it; or, if the one after it is out of
range, with the error of `next`. The loop over the occurrences answers the same, and no
intermediate value overflows. -/
theorem interval_due_eq_loop {fromStr : String → Except String Cron} {expression : String}
    (hparse : LocalSchedule.parse fromStr expression = .ok (.interval m))
    (hs : job.schedule = .interval m) (haligned : first % 1000000 = 0) (hle : first ≤ now)
    (hfirst : InRange first) (hnow : InRange now) :
    ∃ k : ℕ,
      (tick m first k ≤ now ∧ now < tick m first (k + 1) ∧ ∀ j, tick m first j ≤ now → j ≤ k) ∧
      (∀ fuel, job.due fuel first now =
        if InRange (tick m first (k + 1)) then
          some (.ok (tick m first k, tick m first k + m * 1000000, decide (0 < k)))
        else some (.error (.invalidConfiguration "interval timestamp out of range"))) ∧
      (∀ fuel, k < fuel → job.dueByLoop fuel first now = job.due fuel first now) ∧
      ∀ fuel, dueI64 m first now = job.due fuel first now := by
  have hm := parse_interval hparse
  have hm0 : 0 < m := by omega
  obtain ⟨hdue, hlt⟩ := tick_skipped hm0 hle
  refine ⟨skipped m first now, ⟨hdue, hlt, fun j hj => le_skipped hm0 hle hj⟩, fun fuel => ?_,
    fun fuel hfuel => ?_, fun fuel => dueI64_eq hs hm hle hfirst hnow⟩
  · rw [due_interval hs hm0 haligned hfirst.1 hle, answer, tick_succ]
  · rw [due_interval hs hm0 haligned hfirst.1 hle,
      dueByLoop_interval hs hm0 haligned hfirst.1 hnow hdue hlt hfuel]

/-- Every 250 ms, a second and a bit after the first occurrence. -/
theorem interval_due_eq_loop_second :
    (∃ k : ℕ, tick 250 1000000 k ≤ 1001000005) ∧
    (⟨.interval 250, utc, .skip, .skip⟩ : CronJob).due 0 1000000 1001000005 =
      some (.ok (1001000000, 1251000000, true)) ∧
    dueI64 250 1000000 1001000005 = some (.ok (1001000000, 1251000000, true)) := by
  have hparse : LocalSchedule.parse (fun e => .error e) "@every 250ms" = .ok (.interval 250) := rfl
  obtain ⟨k, hk, hdue, -, hi64⟩ := @interval_due_eq_loop ⟨.interval 250, utc, .skip, .skip⟩ 250
    1000000 1001000005 _ _ hparse rfl (by decide) (by decide) (by decide) (by decide)
  exact ⟨⟨k, hk.1⟩, rfl, (hi64 0).trans rfl⟩

end CronJob

end CronSource

end ServiceLib
