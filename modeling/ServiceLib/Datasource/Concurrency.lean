import ServiceLib.Transition

/-!
# The concurrency gate of a source

The Kafka and the custom source limit the requests they process at a time with the same code:
`acquire_concurrency` and `ActiveRequestGuard` in `src/datasource/kafka/rdkafka.rs` and in
`src/datasource/localsource/custom.rs`. A requester reads `stopped` and `active`, and if the limit is
reached it creates a `Notified` future and waits; a release lowers `active` and a `stop` sets
`stopped`, and both then call `notify_waiters`, which wakes the futures that exist and no others.

`gate_wakes`: the number of active requests stays between zero and the limit, and no requester is
left asleep in front of an open gate, as long as what a requester has read is still so when it creates
its future, or a notification is still due. This is exact: the first step that breaks the condition
leaves its requester asleep. Nothing in the code enforces it, so a wakeup can be lost
(`wakeup_lost`).

Each load, store, exchange and call of `Notify` is one action.
-/

namespace ServiceLib

namespace Concurrency

/-! ## Data -/

/-- Where a requester is in `acquire_concurrency`, or with its guard. -/
inductive Pc
  /-- About to load `stopped`. -/
  | entered
  /-- About to load `active`. -/
  | reading
  /-- About to exchange `active`. -/
  | exchanging (active : ℕ)
  /-- The limit is reached: about to create the `Notified` future. -/
  | parking
  /-- Waits in `changed.notified()`. -/
  | parked (woken : Bool)
  /-- Has returned `true`, and holds the guard. -/
  | admitted
  /-- The guard has lowered `active`, and is about to notify. -/
  | notifying
  | rejected
  | done
  deriving DecidableEq

/-- A `stop` call, or a `start` call of the Kafka source. -/
inductive ControlPc
  | notifying
  | returned
  deriving DecidableEq

/-- `Concurrency`, its requesters, and the calls that open and close it. -/
structure State where
  active : ℕ
  stopped : Bool
  requesters : ℕ → Option Pc
  controls : ℕ → Option ControlPc

def State.init : State where
  active := 0
  stopped := false
  requesters := fun _ => none
  controls := fun _ => none

namespace State

def setRequester (s : State) (i : ℕ) (pc : Pc) : State :=
  { s with requesters := Function.update s.requesters i (some pc) }

end State

/-- A `Notified` future is woken. -/
def Pc.wake : Pc → Pc
  | .parked _ => .parked true
  | pc => pc

/-- `notify_waiters`. -/
def notifyWaiters (s : State) : State :=
  { s with requesters := fun i => (s.requesters i).map Pc.wake }

/-! ## The system -/

inductive Action
  | enter (i : ℕ)
  | loadStopped (i : ℕ)
  | loadActive (i : ℕ)
  | compareExchange (i : ℕ)
  /-- `changed.notified()` creates the future. -/
  | notified (i : ℕ)
  /-- The future is ready. -/
  | wake (i : ℕ)
  /-- A request is over, or its future is dropped: the guard lowers `active`. -/
  | release (i : ℕ)
  /-- The guard calls `notify_waiters`. -/
  | notify (i : ℕ)
  /-- The future of a requester that is not admitted is dropped. -/
  | drop (i : ℕ)
  /-- `stop` stores `true`, `start` stores `false`. -/
  | control (j : ℕ) (stopped : Bool)
  | controlNotify (j : ℕ)

def step (limit : ℕ) (s : State) : Action → Option State
  | .enter i =>
    match s.requesters i with
    | none => some (s.setRequester i .entered)
    | some _ => none
  | .loadStopped i =>
    match s.requesters i with
    | some .entered => some (s.setRequester i (if s.stopped then .rejected else .reading))
    | _ => none
  | .loadActive i =>
    match s.requesters i with
    | some .reading =>
      some (s.setRequester i
        (if limit = 0 ∨ s.active < limit then .exchanging s.active else .parking))
    | _ => none
  | .compareExchange i =>
    match s.requesters i with
    | some (.exchanging active) =>
      if s.active = active then
        some (State.setRequester { s with active := (active + 1) % 2 ^ 64 } i .admitted)
      else some (s.setRequester i .entered)
    | _ => none
  | .notified i =>
    match s.requesters i with
    | some .parking => some (s.setRequester i (.parked false))
    | _ => none
  | .wake i =>
    match s.requesters i with
    | some (.parked true) => some (s.setRequester i .entered)
    | _ => none
  | .release i =>
    match s.requesters i with
    | some .admitted =>
      some (State.setRequester { s with active := (s.active + (2 ^ 64 - 1)) % 2 ^ 64 } i .notifying)
    | _ => none
  | .notify i =>
    match s.requesters i with
    | some .notifying => some (notifyWaiters (s.setRequester i .done))
    | _ => none
  | .drop i =>
    match s.requesters i with
    | some (.parked _) => some (s.setRequester i .done)
    | _ => none
  | .control j stopped =>
    match s.controls j with
    | none =>
      some { s with
        stopped := stopped
        controls := Function.update s.controls j (some .notifying) }
    | some _ => none
  | .controlNotify j =>
    match s.controls j with
    | some .notifying =>
      some (notifyWaiters { s with controls := Function.update s.controls j (some .returned) })
    | _ => none

def system (limit : ℕ) : System State Action := ⟨.init, step limit⟩

/-! ## Lost wakeups -/

/-- A notification is due: `active` or `stopped` has changed, and `notify_waiters` is next. -/
def NotifyDue (s : State) : Prop :=
  (∃ i, s.requesters i = some .notifying) ∨ ∃ j, s.controls j = some .notifying

/-- A requester cannot go on: the limit is reached, and the source is not stopped. -/
def Closed (limit : ℕ) (s : State) : Prop := limit ≤ s.active ∧ s.stopped = false

/-- A requester waits, nothing is going to wake it, and it could go on. -/
def LostWakeup (limit : ℕ) (s : State) : Prop :=
  (∃ i, s.requesters i = some (.parked false)) ∧ ¬ Closed limit s ∧ ¬ NotifyDue s

/-- A requester creates its future while the gate is closed, or a notification is due. -/
def Fresh (limit : ℕ) (s : State) : Action → Prop
  | .notified _ => Closed limit s ∨ NotifyDue s
  | _ => True

/-! ## The number of active requests -/

variable {limit : ℕ} {s t : State} {a : Action}

/-- `active` counts the guards. -/
structure Counted (limit : ℕ) (s : State) : Prop where
  guards : ∃ S : Finset ℕ, (∀ i, i ∈ S ↔ s.requesters i = some .admitted) ∧ s.active = S.card
  le : s.active ≤ limit
  exchanging : ∀ i active, s.requesters i = some (.exchanging active) → active < limit

theorem counted_init (limit : ℕ) : Counted limit .init where
  guards := ⟨∅, fun _ => ⟨nofun, nofun⟩, rfl⟩
  le := Nat.zero_le _
  exchanging := nofun

/-- One requester moves on and is not admitted, before or after. -/
theorem Counted.move (h : Counted limit s) {i : ℕ} (hi : s.requesters i ≠ some .admitted) {pc : Pc}
    (hpc : pc ≠ .admitted) (hex : ∀ active, pc = .exchanging active → active < limit) :
    Counted limit (s.setRequester i pc) := by
  obtain ⟨S, hS, hcard⟩ := h.guards
  refine ⟨⟨S, fun k => ?_, hcard⟩, h.le, fun k active hk => ?_⟩
  · change k ∈ S ↔ Function.update s.requesters i (some pc) k = some .admitted
    by_cases hki : k = i
    · subst hki
      rw [Function.update_self, Option.some.injEq, hS]
      exact ⟨fun h => absurd h hi, fun h => absurd h hpc⟩
    · rw [Function.update_of_ne hki, hS]
  · change Function.update s.requesters i (some pc) k = some (.exchanging active) at hk
    by_cases hki : k = i
    · subst hki
      rw [Function.update_self, Option.some.injEq] at hk
      exact hex active hk
    · rw [Function.update_of_ne hki] at hk
      exact h.exchanging k active hk

theorem wake_eq_admitted {pc : Pc} : pc.wake = .admitted ↔ pc = .admitted := by
  cases pc <;> simp [Pc.wake]

theorem wake_eq_exchanging {pc : Pc} {active : ℕ} :
    pc.wake = .exchanging active ↔ pc = .exchanging active := by
  cases pc <;> simp [Pc.wake]

theorem Counted.notifyWaiters (h : Counted limit s) : Counted limit (notifyWaiters s) := by
  obtain ⟨S, hS, hcard⟩ := h.guards
  refine ⟨⟨S, fun k => ?_, hcard⟩, h.le, fun k active hk => ?_⟩
  · rw [hS]
    change _ ↔ (s.requesters k).map Pc.wake = some .admitted
    cases s.requesters k with
    | none => exact ⟨nofun, nofun⟩
    | some pc => rw [Option.map_some, Option.some.injEq, Option.some.injEq, wake_eq_admitted]
  · obtain ⟨pc, hpc, hw⟩ := Option.map_eq_some_iff.1 hk
    exact h.exchanging k active (by rw [hpc, wake_eq_exchanging.1 hw])

/-- A requester is admitted: the exchange has found the value that was read. -/
theorem Counted.admitted (h : Counted limit s) (hlim : limit < 2 ^ 64) {i : ℕ}
    (hi : s.requesters i = some (.exchanging s.active)) :
    Counted limit (State.setRequester { s with active := (s.active + 1) % 2 ^ 64 } i .admitted) := by
  obtain ⟨S, hS, hcard⟩ := h.guards
  have hlt := h.exchanging i s.active hi
  have hmod : (s.active + 1) % 2 ^ 64 = s.active + 1 := Nat.mod_eq_of_lt (by omega)
  have hiS : i ∉ S := by
    rw [hS, hi]
    exact nofun
  refine ⟨⟨insert i S, fun k => ?_, ?_⟩, ?_, fun k active hk => ?_⟩
  · change k ∈ insert i S ↔ Function.update s.requesters i (some .admitted) k = some .admitted
    by_cases hki : k = i
    · subst hki
      rw [Function.update_self]
      exact ⟨fun _ => rfl, fun _ => Finset.mem_insert_self k S⟩
    · rw [Function.update_of_ne hki, Finset.mem_insert, hS]
      exact or_iff_right hki
  · change (s.active + 1) % 2 ^ 64 = _
    rw [hmod, Finset.card_insert_of_notMem hiS, hcard]
  · change (s.active + 1) % 2 ^ 64 ≤ limit
    omega
  · change Function.update s.requesters i (some .admitted) k = some (.exchanging active) at hk
    by_cases hki : k = i
    · subst hki
      rw [Function.update_self] at hk
      cases hk
    · rw [Function.update_of_ne hki] at hk
      exact h.exchanging k active hk

/-- A guard is dropped: there was one, so `active` does not wrap. -/
theorem Counted.release (h : Counted limit s) (hlim : limit < 2 ^ 64) {i : ℕ}
    (hi : s.requesters i = some .admitted) :
    0 < s.active ∧ Counted limit (State.setRequester
      { s with active := (s.active + (2 ^ 64 - 1)) % 2 ^ 64 } i .notifying) := by
  obtain ⟨S, hS, hcard⟩ := h.guards
  have hiS : i ∈ S := (hS i).2 hi
  have hpos : 0 < s.active := hcard ▸ Finset.card_pos.2 ⟨i, hiS⟩
  have hle := h.le
  have hmod : (s.active + (2 ^ 64 - 1)) % 2 ^ 64 = s.active - 1 := by
    rw [show s.active + (2 ^ 64 - 1) = (s.active - 1) + 2 ^ 64 by omega, Nat.add_mod_right]
    exact Nat.mod_eq_of_lt (by omega)
  refine ⟨hpos, ⟨S.erase i, fun k => ?_, ?_⟩, ?_, fun k active hk => ?_⟩
  · change k ∈ S.erase i ↔ Function.update s.requesters i (some .notifying) k = some .admitted
    by_cases hki : k = i
    · subst hki
      rw [Function.update_self]
      exact ⟨fun hk => absurd hk (Finset.notMem_erase k S), nofun⟩
    · rw [Function.update_of_ne hki, Finset.mem_erase, hS]
      exact and_iff_right hki
  · change (s.active + (2 ^ 64 - 1)) % 2 ^ 64 = _
    rw [hmod, Finset.card_erase_of_mem hiS, hcard]
  · change (s.active + (2 ^ 64 - 1)) % 2 ^ 64 ≤ limit
    omega
  · change Function.update s.requesters i (some .notifying) k = some (.exchanging active) at hk
    by_cases hki : k = i
    · subst hki
      rw [Function.update_self] at hk
      cases hk
    · rw [Function.update_of_ne hki] at hk
      exact h.exchanging k active hk

theorem Counted.step (h : Counted limit s) (hpos : 0 < limit) (hlim : limit < 2 ^ 64)
    (hs : step limit s a = some t) : Counted limit t := by
  cases a with
  | enter i =>
    simp only [Concurrency.step] at hs
    cases hi : s.requesters i <;> simp only [hi, reduceCtorEq, Option.some.injEq] at hs
    exact hs ▸ h.move (by rw [hi]; exact nofun) nofun nofun
  | loadStopped i =>
    simp only [Concurrency.step] at hs
    split at hs <;> simp only [reduceCtorEq, Option.some.injEq] at hs
    rename_i hi
    rw [← hs]
    split_ifs <;> exact h.move (by rw [hi]; exact nofun) nofun nofun
  | loadActive i =>
    simp only [Concurrency.step] at hs
    split at hs <;> simp only [reduceCtorEq, Option.some.injEq] at hs
    rename_i hi
    rw [← hs]
    split_ifs with hlt
    · refine h.move (by rw [hi]; exact nofun) nofun fun active hact => ?_
      cases hact
      exact hlt.resolve_left hpos.ne'
    · exact h.move (by rw [hi]; exact nofun) nofun nofun
  | compareExchange i =>
    simp only [Concurrency.step] at hs
    split at hs
    · rename_i active hi
      split_ifs at hs with heq <;> rw [Option.some.injEq] at hs
      · subst heq
        exact hs ▸ h.admitted hlim hi
      · exact hs ▸ h.move (by rw [hi]; exact nofun) nofun nofun
    · cases hs
  | notified i | wake i | drop i =>
    simp only [Concurrency.step] at hs
    split at hs <;> simp only [reduceCtorEq, Option.some.injEq] at hs
    rename_i hi
    exact hs ▸ h.move (by rw [hi]; exact nofun) nofun nofun
  | release i =>
    simp only [Concurrency.step] at hs
    split at hs <;> simp only [reduceCtorEq, Option.some.injEq] at hs
    rename_i hi
    exact hs ▸ (h.release hlim hi).2
  | notify i =>
    simp only [Concurrency.step] at hs
    split at hs <;> simp only [reduceCtorEq, Option.some.injEq] at hs
    rename_i hi
    have hd : Counted limit (s.setRequester i .done) :=
      h.move (by rw [hi]; exact nofun) nofun nofun
    exact hs ▸ hd.notifyWaiters
  | control j stopped =>
    simp only [Concurrency.step] at hs
    cases hj : s.controls j <;> simp only [hj, reduceCtorEq, Option.some.injEq] at hs
    exact hs ▸ ⟨h.guards, h.le, h.exchanging⟩
  | controlNotify j =>
    simp only [Concurrency.step] at hs
    split at hs <;> simp only [reduceCtorEq, Option.some.injEq] at hs
    have hc : Counted limit
        { s with controls := Function.update s.controls j (some .returned) } :=
      ⟨h.guards, h.le, h.exchanging⟩
    exact hs ▸ hc.notifyWaiters

/-! ## Wakeups -/

/-- Who waits has reason to, or is going to be notified. -/
def Awake (limit : ℕ) (s : State) : Prop :=
  ∀ i, s.requesters i = some (.parked false) → Closed limit s ∨ NotifyDue s

theorem awake_iff : Awake limit s ↔ ¬ LostWakeup limit s := by
  constructor
  · rintro h ⟨⟨i, hi⟩, hclosed, hdue⟩
    exact (h i hi).elim hclosed hdue
  · intro h i hi
    by_contra hnot
    rw [not_or] at hnot
    exact h ⟨⟨i, hi⟩, hnot.1, hnot.2⟩

theorem notifyDue_setRequester (hdue : NotifyDue s) {i : ℕ}
    (hi : s.requesters i ≠ some .notifying) (pc : Pc) (active : ℕ) :
    NotifyDue (State.setRequester { s with active := active } i pc) := by
  refine hdue.imp_left fun ⟨k, hk⟩ => ⟨k, ?_⟩
  refine (Function.update_of_ne ?_ _ _).trans hk
  rintro rfl
  exact hi hk

/-- One requester moves on, and does not start to wait. -/
theorem Awake.move (h : Awake limit s) {i : ℕ} (hi : s.requesters i ≠ some .notifying) {pc : Pc}
    (hpc : pc ≠ .parked false) : Awake limit (s.setRequester i pc) := by
  intro k hk
  change Function.update s.requesters i (some pc) k = some (.parked false) at hk
  by_cases hki : k = i
  · subst hki
    rw [Function.update_self, Option.some.injEq] at hk
    exact absurd hk hpc
  · rw [Function.update_of_ne hki] at hk
    exact (h k hk).imp_right fun hdue => notifyDue_setRequester hdue hi pc s.active

/-- Nobody waits unwoken after `notify_waiters`. -/
theorem awake_notifyWaiters (limit : ℕ) (s : State) : Awake limit (notifyWaiters s) := by
  intro k hk
  obtain ⟨pc, -, hw⟩ := Option.map_eq_some_iff.1 hk
  cases pc <;> cases hw

theorem Awake.step (h : Awake limit s) (hc : Counted limit s) (hok : Fresh limit s a)
    (hs : step limit s a = some t) : Awake limit t := by
  cases a with
  | enter i =>
    simp only [Concurrency.step] at hs
    cases hi : s.requesters i <;> simp only [hi, reduceCtorEq, Option.some.injEq] at hs
    exact hs ▸ h.move (by rw [hi]; exact nofun) nofun
  | loadStopped i | loadActive i =>
    simp only [Concurrency.step] at hs
    split at hs <;> simp only [reduceCtorEq, Option.some.injEq] at hs
    rename_i hi
    rw [← hs]
    split_ifs <;> exact h.move (by rw [hi]; exact nofun) nofun
  | compareExchange i =>
    simp only [Concurrency.step] at hs
    split at hs
    · rename_i active hi
      have hnot : s.requesters i ≠ some .notifying := by rw [hi]; exact nofun
      split_ifs at hs with heq <;> rw [Option.some.injEq] at hs
      · subst heq
        rw [← hs]
        intro k hk
        change Function.update s.requesters i (some .admitted) k = some (.parked false) at hk
        by_cases hki : k = i
        · subst hki
          rw [Function.update_self] at hk
          cases hk
        · rw [Function.update_of_ne hki] at hk
          -- the exchange succeeds below the limit, so whoever waits is going to be notified
          rcases h k hk with hclosed | hdue
          · exact absurd (hc.exchanging i s.active hi) (not_lt.2 hclosed.1)
          · exact .inr (notifyDue_setRequester hdue hnot .admitted _)
      · exact hs ▸ h.move hnot nofun
    · cases hs
  | notified i =>
    simp only [Concurrency.step] at hs
    split at hs <;> simp only [reduceCtorEq, Option.some.injEq] at hs
    rename_i hi
    rw [← hs]
    intro k _
    rcases hok with hclosed | hdue
    · exact .inl hclosed
    · exact .inr (notifyDue_setRequester hdue (by rw [hi]; exact nofun) _ s.active)
  | wake i | drop i =>
    simp only [Concurrency.step] at hs
    split at hs <;> simp only [reduceCtorEq, Option.some.injEq] at hs
    rename_i hi
    exact hs ▸ h.move (by rw [hi]; exact nofun) nofun
  | release i =>
    simp only [Concurrency.step] at hs
    split at hs <;> simp only [reduceCtorEq, Option.some.injEq] at hs
    exact hs ▸ fun _ _ => .inr (.inl ⟨i, Function.update_self ..⟩)
  | notify i =>
    simp only [Concurrency.step] at hs
    split at hs <;> simp only [reduceCtorEq, Option.some.injEq] at hs
    exact hs ▸ awake_notifyWaiters limit _
  | control j stopped =>
    simp only [Concurrency.step] at hs
    cases hj : s.controls j <;> simp only [hj, reduceCtorEq, Option.some.injEq] at hs
    exact hs ▸ fun _ _ => .inr (.inr ⟨j, Function.update_self ..⟩)
  | controlNotify j =>
    simp only [Concurrency.step] at hs
    split at hs <;> simp only [reduceCtorEq, Option.some.injEq] at hs
    exact hs ▸ awake_notifyWaiters limit _

/-- A requester that creates its future too late is left asleep. -/
theorem lostWakeup_of_not_fresh (hs : step limit s a = some t) (hnot : ¬ Fresh limit s a) :
    LostWakeup limit t := by
  cases a with
  | notified i =>
    simp only [Concurrency.step] at hs
    split at hs <;> simp only [reduceCtorEq, Option.some.injEq] at hs
    rename_i hi
    rw [Fresh, not_or] at hnot
    rw [← hs]
    refine ⟨⟨i, Function.update_self ..⟩, hnot.1, fun hdue => hnot.2 ?_⟩
    refine hdue.imp_left fun ⟨k, hk⟩ => ⟨k, ?_⟩
    change Function.update s.requesters i (some (.parked false)) k = some .notifying at hk
    by_cases hki : k = i
    · subst hki
      rw [Function.update_self] at hk
      cases hk
    · rwa [Function.update_of_ne hki] at hk
  | enter | loadStopped | loadActive | compareExchange | wake | release | notify | drop | control
  | controlNotify => exact absurd trivial hnot

/-! ## Main result -/

/-- **No wakeup is lost while futures are created in time.** In every run in which a requester
creates its `Notified` future only while the limit is reached and the source not stopped, or while a
notification is due: at most `limit` requests are active, `active` is positive whenever a guard is
dropped, and no requester is asleep in front of an open gate with no notification due. And this is
exact: a further step leads to a lost wakeup if and only if it breaks the condition. -/
theorem gate_wakes (hpos : 0 < limit) (hlim : limit < 2 ^ 64)
    (h : (system limit).Reach (Fresh limit) s) :
    s.active ≤ limit ∧
    (∀ i, s.requesters i = some .admitted → 0 < s.active) ∧
    ¬ LostWakeup limit s ∧
    ∀ a t, step limit s a = some t → (¬ LostWakeup limit t ↔ Fresh limit s a) := by
  have hinv : Counted limit s ∧ Awake limit s := by
    refine h.invariant (I := fun s => Counted limit s ∧ Awake limit s)
      ⟨counted_init limit, fun i hi => by cases hi⟩
      fun _ _ _ hi hok hs => ⟨hi.1.step hpos hlim hs, hi.2.step hi.1 hok hs⟩
  obtain ⟨hcount, hawake⟩ := hinv
  refine ⟨hcount.le, fun i hi => (hcount.release hlim hi).1, awake_iff.1 hawake, fun a t hs => ?_⟩
  constructor
  · intro hnot
    by_contra hfresh
    exact hnot (lostWakeup_of_not_fresh hs hfresh)
  · exact fun hfresh => awake_iff.1 (hawake.step hcount hfresh hs)

/-- A requester creates its future while the gate is closed. -/
def InTime (limit : ℕ) (s : State) : Action → Prop
  | .notified _ => Closed limit s
  | _ => True

instance (limit : ℕ) (s : State) : ∀ a, Decidable (InTime limit s a)
  | .notified _ => inferInstanceAs (Decidable (limit ≤ s.active ∧ s.stopped = false))
  | .enter _ | .loadStopped _ | .loadActive _ | .compareExchange _ | .wake _ | .release _
  | .notify _ | .drop _ | .control _ _ | .controlNotify _ => inferInstanceAs (Decidable True)

/-- A first request is admitted; a second one has read that the limit of one is reached. -/
def limitReached : List Action :=
  [.enter 0, .loadStopped 0, .loadActive 0, .compareExchange 0, .enter 1, .loadStopped 1,
    .loadActive 1]

/-- The second request waits, and the first is over. -/
def waited : List Action := limitReached ++ [.notified 1, .release 0, .notify 0]

theorem waited_runs : (((system 1).restrict (InTime 1)).run .init waited).isSome := by
  decide +kernel

theorem gate_wakes_waited :
    ∃ s, (system 1).Reach (Fresh 1) s ∧ s.requesters 1 = some (.parked true) ∧ s.active = 0 ∧
      ¬ LostWakeup 1 s := by
  have h : (system 1).Reach (Fresh 1)
      ((((system 1).restrict (InTime 1)).run .init waited).get waited_runs) :=
    (System.reachable_get waited_runs).reach.mono fun s a hok => by
      cases a with
      | notified i => exact .inl hok
      | enter | loadStopped | loadActive | compareExchange | wake | release | notify | drop
      | control | controlNotify => exact trivial
  exact ⟨_, h, rfl, rfl, (gate_wakes Nat.one_pos (by decide) h).2.2.1⟩

/-- The first request is over before the second one creates its future. -/
def tooLate : List Action := limitReached ++ [.release 0, .notify 0, .notified 1]

theorem tooLate_runs : ((system 1).run .init tooLate).isSome := by
  decide +kernel

/-- **A wakeup is lost**: the second requester waits although no request is active, and nothing is
going to notify it. -/
theorem wakeup_lost : ∃ s, (system 1).Reachable s ∧ LostWakeup 1 s := by
  set s := ((system 1).run .init tooLate).get tooLate_runs
  refine ⟨s, System.reachable_get tooLate_runs, ⟨1, rfl⟩, ?_, ?_⟩
  · rintro ⟨hle, -⟩
    exact absurd hle (by decide +kernel)
  · rintro (⟨i, hi⟩ | ⟨j, hj⟩)
    · match i with
      | 0 => cases hi
      | 1 => cases hi
      | i + 2 => cases hi
    · cases hj

end Concurrency

end ServiceLib
