import ServiceLib.Store.JoinTimers

/-!
# Admission into a group

Follows the loop of `join_value_with` in `src/runtime/store/hashmap.rs`. A call finds or makes the
group of its key, waits for the lock of the group, and puts its value in; it starts over if the
group has ended, or has expired, in the meantime.

**Theorem (`admission_never_panics`).** The call that puts the first value into a group with a
positive TTL takes the deadline of the group as given. It is given in every run in which no call
with a positive TTL finds a group without deadline and without values, made by a call that had no
TTL. A call that does find one panics when it gets the lock at once.
-/

namespace ServiceLib

namespace JoinStorage

variable {K V : Type}

/-! ## The deadline of a group -/

/-- The first value of the group finds a deadline, or it is there already. -/
def Item.Ready (x : Item V) : Prop := x.deadline.isSome = true ∨ x.values ≠ []

/-- No call with a TTL finds a group that is not ready. -/
def FindsDeadline [DecidableEq K] (s : State K V) : Action K V → Prop
  | .lookup c => ∀ call e x, s.calls c = some call → call.pc = .lookup → 0 < call.effectiveTtl →
      s.items.lookup call.key = some e → s.entries e = some x → x.expired s.clock = false → x.Ready
  | _ => True

/-- No call has panicked, and each that waits for the lock of a group with a TTL waits for one that
is ready. -/
def Admits (entries : ℕ → Option (Item V)) (calls : ℕ → Option (Call K V)) : Prop :=
  ∀ c call, calls c = some call → call.pc ≠ .panicked ∧
    ∀ e, call.pc = .locking e → 0 < call.effectiveTtl → ∃ x, entries e = some x ∧ x.Ready

variable {s t : State K V} {deadlineOf : ℕ → Option ℕ} {a : Action K V}
  {entries : ℕ → Option (Item V)} {calls : ℕ → Option (Call K V)} {c e : ℕ} {call : Call K V}
  {x x' : Item V}

/-- A group changes, or is made, and a ready one stays ready. -/
theorem Admits.setEntry (h : Admits entries calls)
    (hr : ∀ x, entries e = some x → x.Ready → x'.Ready) :
    Admits (Function.update entries e (some x')) calls := by
  intro c call hc
  refine ⟨(h c call hc).1, fun e' hpc httl => ?_⟩
  obtain ⟨y, hy, hready⟩ := (h c call hc).2 e' hpc httl
  by_cases he : e' = e
  · subst he
    exact ⟨x', Function.update_self .., hr y hy hready⟩
  · exact ⟨y, by rw [Function.update_of_ne he, hy], hready⟩

theorem Admits.setCall (h : Admits entries calls) {pc : CallPc V} (hpc : pc ≠ .panicked)
    (hlocking : ∀ e, pc = .locking e → 0 < call.effectiveTtl → ∃ x, entries e = some x ∧ x.Ready) :
    Admits entries (Function.update calls c (some { call with pc := pc })) := by
  intro c' call' hc'
  by_cases hcc : c' = c
  · subst hcc
    rw [Function.update_self, Option.some.injEq] at hc'
    subst hc'
    exact ⟨hpc, hlocking⟩
  · rw [Function.update_of_ne hcc] at hc'
    exact h c' call' hc'

/-- The call goes on without a group to wait for. -/
theorem Admits.goOn (h : Admits entries calls) {pc : CallPc V} (hpc : pc ≠ .panicked)
    (hlocking : ∀ e, pc ≠ .locking e) :
    Admits entries (Function.update calls c (some { call with pc := pc })) :=
  h.setCall hpc fun e he => absurd he (hlocking e)

theorem pushAt_ready (hv : x'.values = pushAt x.values call.index call.value) : x'.Ready :=
  Or.inr (hv ▸ pushAt_ne_nil _ _ _)

/-- A value is accepted into a group that is ready. -/
theorem Admits.accept (h : Admits s.entries s.calls) (hready : 0 < call.effectiveTtl → x.Ready) :
    Admits (accept s c call e x).entries (accept s c call e x).calls := by
  have hnew : ∀ x' : Item V, x'.values = pushAt x.values call.index call.value →
      Admits (Function.update s.entries e (some x'))
        (Function.update s.calls c (some { call with
          pc := .invoking e (pushAt x.values call.index call.value) })) := fun x' hv =>
    (h.setEntry fun _ _ _ => pushAt_ready hv).goOn (by simp) (by simp)
  unfold JoinStorage.accept
  by_cases hfirst : x.values.isEmpty = true
  · rw [if_pos hfirst]
    by_cases httl : 0 < call.effectiveTtl
    · rw [if_pos httl]
      have hnil : x.values = [] := List.isEmpty_iff.1 hfirst
      cases hd : x.deadline with
      | some deadline => exact hnew _ rfl
      | none =>
        rcases hready httl with hsome | hne
        · rw [hd] at hsome
          cases hsome
        · exact absurd hnil hne
    · rw [if_neg httl]
      exact hnew _ rfl
  · rw [if_neg hfirst]
    exact hnew _ rfl

/-- `expect` on a group without a deadline. -/
theorem accept_panics (s : State K V) (c e : ℕ) (hv : x.values = []) (hd : x.deadline = none)
    (httl : 0 < call.effectiveTtl) :
    (accept s c call e x).calls c = some { call with pc := .panicked } := by
  unfold JoinStorage.accept
  rw [if_pos (List.isEmpty_iff.2 hv), if_pos httl]
  simp only [hd]
  exact Function.update_self ..

section Steps

variable [DecidableEq K]

theorem Admits.create (h : Admits s.entries s.calls) (hg : GroupsOk s) :
    Admits (lookup.create s c call).entries (lookup.create s c call).calls := by
  refine (h.setEntry fun y hy _ => ?_).setCall (by simp) fun e' he httl => ?_
  · rw [hg.fresh _ le_rfl] at hy
    cases hy
  · cases he
    refine ⟨_, Function.update_self .., Or.inl ?_⟩
    rw [if_pos httl]
    rfl

theorem Admits.step (h : Admits s.entries s.calls) (hg : GroupsOk s)
    (hok : FindsDeadline s a) (hs : step deadlineOf s a = some t) :
    Admits t.entries t.calls := by
  cases a with
  | join c =>
    simp only [JoinStorage.step] at hs
    cases hc : s.calls c <;> simp only [hc, reduceCtorEq, Option.some.injEq] at hs
    subst hs
    exact h.goOn (by simp) (by simp)
  | lookup c =>
    simp only [JoinStorage.step, Option.bind_eq_bind, Option.bind_eq_some_iff] at hs
    obtain ⟨call, hc, hs⟩ := hs
    cases hpc : call.pc <;> simp only [hpc, reduceCtorEq, Option.some.injEq] at hs
    subst hs
    rw [JoinStorage.lookup]
    split
    · rename_i e x hfound
      simp only [Option.bind_eq_some_iff, Option.map_eq_some_iff, Prod.mk.injEq] at hfound
      obtain ⟨_, hi, _, hx, rfl, rfl⟩ := hfound
      split_ifs with hexp
      · exact h.create hg
      · refine h.setCall (by simp) fun e' he httl => ?_
        cases he
        exact ⟨_, hx, hok call _ _ hc hpc httl hi hx (by simpa using hexp)⟩
    · exact h.create hg
  | lock c =>
    simp only [JoinStorage.step, Option.bind_eq_bind, Option.bind_eq_some_iff] at hs
    obtain ⟨call, hc, hs⟩ := hs
    cases hpc : call.pc <;> simp only [hpc, reduceCtorEq] at hs
    rename_i e
    obtain ⟨x, hx, hs⟩ := Option.bind_eq_some_iff.1 hs
    split_ifs at hs
    · rw [Option.some.injEq] at hs
      subst hs
      exact h.goOn (by simp) (by simp)
    · rw [Option.some.injEq] at hs
      subst hs
      refine h.accept fun httl => ?_
      obtain ⟨y, hy, hready⟩ := (h c call hc).2 e hpc httl
      rw [hx] at hy
      cases hy
      exact hready
  | invoked c result =>
    simp only [JoinStorage.step, Option.bind_eq_bind, Option.bind_eq_some_iff] at hs
    obtain ⟨call, hc, hs⟩ := hs
    cases hpc : call.pc <;> simp only [hpc, reduceCtorEq] at hs
    obtain ⟨x, hx, hs⟩ := Option.bind_eq_some_iff.1 hs
    rw [Option.some.injEq] at hs
    subst hs
    cases result
    · refine (h.setEntry fun y hy hready => ?_).goOn (by simp) (by simp)
      rw [hx] at hy
      cases hy
      rcases hready with hd | hv
      · refine Or.inl ?_
        dsimp only
        split_ifs
        · rfl
        · exact hd
      · exact Or.inr hv
    · refine (h.setEntry fun y hy hready => ?_).goOn (by simp) (by simp)
      rw [hx] at hy
      cases hy
      exact hready
  | remove c =>
    simp only [JoinStorage.step, Option.bind_eq_bind, Option.bind_eq_some_iff] at hs
    obtain ⟨call, hc, hs⟩ := hs
    cases hpc : call.pc <;> simp only [hpc, reduceCtorEq, Option.some.injEq] at hs
    rename_i e retry
    subst hs
    cases retry <;> exact h.goOn (by simp) (by simp)
  | drop c =>
    simp only [JoinStorage.step, Option.bind_eq_bind, Option.bind_eq_some_iff] at hs
    obtain ⟨call, hc, hs⟩ := hs
    cases hpc : call.pc <;> simp only [hpc, reduceCtorEq] at hs
    case invoking e vals =>
      obtain ⟨x, hx, hs⟩ := Option.bind_eq_some_iff.1 hs
      rw [Option.some.injEq] at hs
      subst hs
      refine (h.setEntry fun y hy hready => ?_).goOn (by simp) (by simp)
      rw [hx] at hy
      cases hy
      exact hready
    all_goals
      rw [Option.some.injEq] at hs
      subst hs
      exact h.goOn (by simp) (by simp)
  | expire j =>
    simp only [JoinStorage.step, Option.bind_eq_bind, Option.bind_eq_some_iff] at hs
    obtain ⟨z, hz, hs⟩ := hs
    cases hpc : z.pc <;> simp only [hpc, reduceCtorEq] at hs
    obtain ⟨x, hx, hs⟩ := Option.bind_eq_some_iff.1 hs
    split_ifs at hs with hl
    rw [Option.some.injEq] at hs
    subst hs
    rw [expire]
    split
    · exact h
    · split
      · exact h
      · refine h.setEntry fun y hy hready => ?_
        rw [hx] at hy
        cases hy
        exact hready
  | wake j =>
    simp only [JoinStorage.step, Option.bind_eq_bind, Option.bind_eq_some_iff] at hs
    obtain ⟨z, hz, hs⟩ := hs
    cases hpc : z.pc <;> simp only [hpc, reduceCtorEq] at hs
    split_ifs at hs
    all_goals
      rw [Option.some.injEq] at hs
      subst hs
      exact h
  | called j | callPanicked j | evict j =>
    simp only [JoinStorage.step, Option.bind_eq_bind, Option.bind_eq_some_iff] at hs
    obtain ⟨z, hz, hs⟩ := hs
    cases hpc : z.pc <;> simp only [hpc, reduceCtorEq, Option.some.injEq] at hs
    subst hs
    exact h
  | tick d | cancel context =>
    simp only [JoinStorage.step, Option.some.injEq] at hs
    subst hs
    exact h

end Steps

/-! ## Groups without values -/

/-- A group without values is free and has not ended. -/
def Untouched (entries : ℕ → Option (Item V)) : Prop :=
  ∀ e x, entries e = some x → x.values = [] → x.lock = none ∧ x.processed = false

theorem Untouched.setEntry (h : Untouched entries)
    (hx' : x'.values = [] → x'.lock = none ∧ x'.processed = false) :
    Untouched (Function.update entries e (some x')) := by
  intro e' y hy hv
  by_cases he : e' = e
  · subst he
    rw [Function.update_self, Option.some.injEq] at hy
    subst hy
    exact hx' hv
  · rw [Function.update_of_ne he] at hy
    exact h e' y hy hv

theorem Untouched.setValues (h : Untouched entries) (hv : x'.values ≠ []) :
    Untouched (Function.update entries e (some x')) :=
  h.setEntry fun hnil => absurd hnil hv

/-- The group of a running `invoke` has a value. -/
theorem Untouched.values_of_invoking (h : Untouched s.entries) (hg : GroupsOk s)
    {vals : List (List V)} (hc : s.calls c = some call) (hpc : call.pc = .invoking e vals) (hx : s.entries e = some x) :
    x.values ≠ [] := by
  intro hnil
  obtain ⟨-, -, hlock⟩ := hg.invoking c call hc e vals hpc
  rw [hx, lockOf_some, (h e x hx hnil).1] at hlock
  cases hlock

section Steps

variable [DecidableEq K]

theorem Untouched.create (h : Untouched s.entries) : Untouched (lookup.create s c call).entries :=
  h.setEntry fun _ => ⟨rfl, rfl⟩

theorem Untouched.step (h : Untouched s.entries) (hg : GroupsOk s) (he : ExpiryOk s)
    (hs : step deadlineOf s a = some t) : Untouched t.entries := by
  cases a with
  | join c =>
    simp only [JoinStorage.step] at hs
    cases hc : s.calls c <;> simp only [hc, reduceCtorEq, Option.some.injEq] at hs
    subst hs
    exact h
  | lookup c =>
    simp only [JoinStorage.step, Option.bind_eq_bind, Option.bind_eq_some_iff] at hs
    obtain ⟨call, hc, hs⟩ := hs
    cases hpc : call.pc <;> simp only [hpc, reduceCtorEq, Option.some.injEq] at hs
    subst hs
    rw [JoinStorage.lookup]
    split
    · split_ifs
      · exact h.create
      · exact h
    · exact h.create
  | lock c =>
    simp only [JoinStorage.step, Option.bind_eq_bind, Option.bind_eq_some_iff] at hs
    obtain ⟨call, hc, hs⟩ := hs
    cases hpc : call.pc <;> simp only [hpc, reduceCtorEq] at hs
    rename_i e
    obtain ⟨x, hx, hs⟩ := Option.bind_eq_some_iff.1 hs
    split_ifs at hs
    · rw [Option.some.injEq] at hs
      subst hs
      exact h
    · rw [Option.some.injEq] at hs
      subst hs
      obtain ⟨x', pc, timers, n, heq, hv, -⟩ := accept_eq s c call e x
      rw [heq]
      exact h.setValues (hv ▸ pushAt_ne_nil _ _ _)
  | invoked c result =>
    simp only [JoinStorage.step, Option.bind_eq_bind, Option.bind_eq_some_iff] at hs
    obtain ⟨call, hc, hs⟩ := hs
    cases hpc : call.pc <;> simp only [hpc, reduceCtorEq] at hs
    obtain ⟨x, hx, hs⟩ := Option.bind_eq_some_iff.1 hs
    rw [Option.some.injEq] at hs
    subst hs
    have hv := h.values_of_invoking hg hc hpc hx
    cases result <;> exact h.setValues hv
  | remove c =>
    simp only [JoinStorage.step, Option.bind_eq_bind, Option.bind_eq_some_iff] at hs
    obtain ⟨call, hc, hs⟩ := hs
    cases hpc : call.pc <;> simp only [hpc, reduceCtorEq, Option.some.injEq] at hs
    subst hs
    exact h
  | drop c =>
    simp only [JoinStorage.step, Option.bind_eq_bind, Option.bind_eq_some_iff] at hs
    obtain ⟨call, hc, hs⟩ := hs
    cases hpc : call.pc <;> simp only [hpc, reduceCtorEq] at hs
    case invoking e vals =>
      obtain ⟨x, hx, hs⟩ := Option.bind_eq_some_iff.1 hs
      rw [Option.some.injEq] at hs
      subst hs
      have hv := h.values_of_invoking hg hc hpc hx
      exact h.setValues hv
    all_goals
      rw [Option.some.injEq] at hs
      subst hs
      exact h
  | expire j =>
    simp only [JoinStorage.step, Option.bind_eq_bind, Option.bind_eq_some_iff] at hs
    obtain ⟨z, hz, hs⟩ := hs
    cases hpc : z.pc <;> simp only [hpc, reduceCtorEq] at hs
    obtain ⟨x, hx, hs⟩ := Option.bind_eq_some_iff.1 hs
    split_ifs at hs with hl
    rw [Option.some.injEq] at hs
    subst hs
    rw [expire]
    split
    · exact h
    · split
      · exact h
      · refine h.setValues fun hnil => ?_
        -- a group with a timer has a value
        refine not_timed_of_empty he ?_ ⟨j, z, hz, rfl⟩
        rw [hx]
        exact hnil
  | wake j =>
    simp only [JoinStorage.step, Option.bind_eq_bind, Option.bind_eq_some_iff] at hs
    obtain ⟨z, hz, hs⟩ := hs
    cases hpc : z.pc <;> simp only [hpc, reduceCtorEq] at hs
    split_ifs at hs
    all_goals
      rw [Option.some.injEq] at hs
      subst hs
      exact h
  | called j | callPanicked j | evict j =>
    simp only [JoinStorage.step, Option.bind_eq_bind, Option.bind_eq_some_iff] at hs
    obtain ⟨z, hz, hs⟩ := hs
    cases hpc : z.pc <;> simp only [hpc, reduceCtorEq, Option.some.injEq] at hs
    subst hs
    exact h
  | tick d | cancel context =>
    simp only [JoinStorage.step, Option.some.injEq] at hs
    subst hs
    exact h

theorem untouched_reachable (h : (system K V deadlineOf).Reachable s) : Untouched s.entries := by
  have hall : GroupsOk s ∧ ExpiryOk s ∧ Untouched s.entries :=
    System.Reachable.invariant (I := fun s => GroupsOk s ∧ ExpiryOk s ∧ Untouched s.entries)
      ⟨groupsOk_init, expiryOk_init, fun _ _ hx => by cases hx⟩
      (fun _ _ _ hi hs => ⟨hi.1.step hs, hi.2.1.step hi.1 hs, hi.2.2.step hi.1 hi.2.1 hs⟩) h
  exact hall.2.2

/-! ## The deadline that a first value finds -/

/-- A call that finds a group that is not ready panics if it is the next one to get its lock. -/
theorem panics_of_not_findsDeadline (hu : Untouched s.entries) (hok : ¬ FindsDeadline s a)
    (hs : step deadlineOf s a = some t) :
    ∃ c u call, a = .lookup c ∧ step deadlineOf t (.lock c) = some u ∧ u.calls c = some call ∧
      call.pc = .panicked := by
  cases a with
  | lookup c =>
    simp only [FindsDeadline, not_forall] at hok
    obtain ⟨call, e, x, hc, hpc, httl, hi, hx, hexp, hready⟩ := hok
    simp only [Item.Ready, not_or, Bool.not_eq_true, Option.isSome_eq_false_iff,
      Option.isNone_iff_eq_none, ne_eq, not_not] at hready
    obtain ⟨hd, hv⟩ := hready
    obtain ⟨hlock, hprocessed⟩ := hu e x hx hv
    have ht : t = s.setCall c call (.locking e) := by
      simp only [JoinStorage.step, hc, hpc, Option.bind_eq_bind, Option.bind_some,
        Option.some.injEq] at hs
      rw [← hs, JoinStorage.lookup]
      simp [hi, hx, hexp]
    have hct : t.calls c = some { call with pc := .locking e } := by
      rw [ht]
      exact Function.update_self ..
    have hxt : t.entries e = some x := by
      rw [ht]
      exact hx
    have hexp' : x.expired t.clock = false := by
      rw [ht]
      exact hexp
    refine ⟨c, accept t c { call with pc := .locking e } e x, _, rfl, ?_,
      accept_panics t c e hv hd httl, rfl⟩
    simp [JoinStorage.step, hct, hxt, hlock, hprocessed, hexp']
  | _ => exact absurd trivial hok

/-- **The deadline of a group is there.** No call panics in a run in which no call with a TTL finds
a group without deadline and values; one that finds such a group panics when it is the next to get
the lock. -/
theorem admission_never_panics
    (h : (system K V deadlineOf).Reach FindsDeadline s) :
    (∀ c call, s.calls c = some call → call.pc ≠ .panicked) ∧
      ∀ a t, step deadlineOf s a = some t → ¬ FindsDeadline s a →
        ∃ c u call, a = .lookup c ∧ step deadlineOf t (.lock c) = some u ∧
          u.calls c = some call ∧ call.pc = .panicked := by
  have hall : GroupsOk s ∧ Admits s.entries s.calls :=
    System.Reach.invariant (I := fun s => GroupsOk s ∧ Admits s.entries s.calls)
      ⟨groupsOk_init, fun _ _ hc => by cases hc⟩
      (fun _ _ _ hi hok hs => ⟨hi.1.step hs, hi.2.step hi.1 hok hs⟩) h
  refine ⟨fun c call hc => (hall.2 c call hc).1, fun a t hs hok => ?_⟩
  exact panics_of_not_findsDeadline (untouched_reachable h.reachable) hok hs

end Steps

/-- Two calls with a TTL meet in one group: the second one finds the deadline. -/
theorem deadline_found : ∃ s : State ℕ ℕ, (∀ c call, s.calls c = some call → call.pc ≠ .panicked) ∧
    (s.calls 1).map Call.pc = some (.invoking 0 [[8]]) ∧
    (s.calls 0).map Call.pc = some (.locking 0) := by
  have h1 : (system ℕ ℕ fun _ => none).Reach FindsDeadline _ :=
    .step (a := .join 0 0 0 0 7 0 5 false) .init trivial rfl
  have h2 : (system ℕ ℕ fun _ => none).Reach FindsDeadline _ :=
    .step (a := .join 1 1 0 0 8 1 5 false) h1 trivial rfl
  have h3 : (system ℕ ℕ fun _ => none).Reach FindsDeadline _ :=
    .step (a := .lookup 0) h2 (by
      intro call e x _ _ _ hi
      cases hi) rfl
  have h4 : (system ℕ ℕ fun _ => none).Reach FindsDeadline _ :=
    .step (a := .lookup 1) h3 (by
      intro call e x hc hpc _ hi hx _
      cases hc
      cases hi
      cases hx
      exact Or.inl rfl) rfl
  have h5 : (system ℕ ℕ fun _ => none).Reach FindsDeadline _ :=
    .step (a := .lock 1) h4 trivial rfl
  exact ⟨_, (admission_never_panics h5).1, rfl, rfl⟩

/-! ## A group that a call without TTL has made -/

def mixedTtl : List (Action ℕ ℕ) :=
  [.join 0 0 0 0 7 0 0 false, .lookup 0, .join 1 1 0 0 8 1 5 false, .lookup 1, .lock 1]

theorem mixedTtl_runs : ((system ℕ ℕ fun _ => none).run .init mixedTtl).isSome := by
  decide +kernel

/-- The TTL is zero when one call is made and positive when the next is, which gets the lock of the
group before the first: it panics. -/
theorem mixed_ttl_panics : ∃ s, (system ℕ ℕ fun _ => none).Reachable s ∧
    (s.calls 1).map Call.pc = some .panicked :=
  ⟨_, System.reachable_get (S := system ℕ ℕ fun _ => none) mixedTtl_runs, rfl⟩

end JoinStorage

end ServiceLib
