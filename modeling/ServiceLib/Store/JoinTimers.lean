import ServiceLib.Store.JoinExpiry

/-!
# Groups without a timer

Follows the acceptance of a group's first value in `join_value_with`, `src/runtime/store/hashmap.rs`.
Whether a timer is armed is decided there from what two calls have found when they were made: the
call whose value is first, which arms the timer only if it had time left, and the call that made the
entry, which gave it a deadline only if it had. A deadline that has passed leaves no time, just like
no deadline at all.

`no_immortal_group`: as long as both calls had time left whenever a group is to have a timer, every
such group has an armed timer until it ends. A first value for which that fails goes into a group
that has none.
-/

namespace ServiceLib

namespace JoinStorage

variable {K V : Type}

/-! ## Statement -/

/-- The value that was accepted first into a group. -/
def firstOf (accepted : List (Accepted V)) (e : ℕ) : Option (Accepted V) :=
  accepted.find? fun a => a.entry = e

/-- The call has a context with a deadline, or a positive TTL was configured. -/
def Call.Bounded (deadlineOf : ℕ → Option ℕ) (call : Call K V) : Prop :=
  (deadlineOf call.context).isSome ∨ 0 < call.effectiveTtl

/-- The group has ended, or has an armed timer. -/
def Guarded (s : State K V) (e : ℕ) : Prop :=
  terminals s.terminal e ≠ [] ∨
    ∃ i y, s.timers i = some y ∧ y.entry = e ∧ Armed s.entries s.tokens i y

/-- Every group that is to end in time will. -/
def Mortal (deadlineOf : ℕ → Option ℕ) (s : State K V) : Prop :=
  ∀ e a call, firstOf s.accepted e = some a → s.calls a.call = some call →
    call.Bounded deadlineOf → Guarded s e

/-- The call is about to put its value into group `e`, whose item is `x`. -/
structure Accepting (s : State K V) (c : ℕ) (call : Call K V) (e : ℕ) (x : Item V) : Prop where
  known : s.calls c = some call
  pc : call.pc = .locking e
  item : s.entries e = some x
  free : x.lock = none
  accepts : (x.processed || x.expired s.clock) = false

/-- If the group is to have a timer, both the call whose value is first and the call that made the
entry had time left. -/
def InTime (deadlineOf : ℕ → Option ℕ) (s : State K V) : Action K V → Prop
  | .lock c => ∀ call e x, Accepting s c call e x → x.values = [] → call.Bounded deadlineOf →
      0 < call.effectiveTtl ∧ x.deadline.isSome
  | _ => True

/-! ## What a step does -/

/-- The values of a group begin with its first one. -/
def FirstsOk (s : State K V) : Prop :=
  ∀ e, valuesOf (s.entries e) = [] ↔ firstOf s.accepted e = none

/-- What every step keeps of calls and endings. -/
structure Onward (s t : State K V) : Prop where
  terminal : s.terminal ⊆ t.terminal
  calls : ∀ c call, s.calls c = some call → ∃ call', t.calls c = some call' ∧
    call'.context = call.context ∧ call'.effectiveTtl = call.effectiveTtl

/-- A step accepts no value, or one call's value. -/
inductive Accepts (s t : State K V) (a : Action K V) : Prop
  | none : t.accepted = s.accepted →
      (∀ e, valuesOf (t.entries e) = [] ↔ valuesOf (s.entries e) = []) → Accepts s t a
  | value (c : ℕ) (call : Call K V) (e : ℕ) (x : Item V) : a = .lock c →
      Accepting s c call e x → t = accept s c call e x → Accepts s t a

variable {s t : State K V} {deadlineOf : ℕ → Option ℕ} {a : Action K V}

/-- A call goes on. -/
theorem calls_setCall {c : ℕ} {call : Call K V} (hc : s.calls c = some call) (pc : CallPc V)
    (c' : ℕ) (call₀ : Call K V) (h : s.calls c' = some call₀) :
    ∃ call', Function.update s.calls c (some { call with pc := pc }) c' = some call' ∧
      call'.context = call₀.context ∧ call'.effectiveTtl = call₀.effectiveTtl := by
  by_cases hcc : c' = c
  · subst hcc
    rw [hc, Option.some.injEq] at h
    subst h
    exact ⟨_, Function.update_self .., rfl, rfl⟩
  · exact ⟨call₀, by rw [Function.update_of_ne hcc, h], rfl, rfl⟩

theorem calls_same (c : ℕ) (call : Call K V) (h : s.calls c = some call) :
    ∃ call', s.calls c = some call' ∧ call'.context = call.context ∧
      call'.effectiveTtl = call.effectiveTtl := ⟨call, h, rfl, rfl⟩

/-- An item changes and keeps its values. -/
theorem Accepts.keep {e : ℕ} {x x' : Item V} (hx : s.entries e = some x)
    (hent : t.entries = Function.update s.entries e (some x')) (hv : x'.values = x.values)
    (hacc : t.accepted = s.accepted) : Accepts s t a :=
  .none hacc fun e' => by rw [hent, valuesOf_update hx hv]

theorem Accepts.same (hacc : t.accepted = s.accepted) (hent : t.entries = s.entries) :
    Accepts s t a :=
  .none hacc fun e => by rw [hent]

section Steps

variable [DecidableEq K]

/-- A new group has no values yet, and neither had it before. -/
theorem create_accepts (hg : GroupsOk s) (c : ℕ) (call : Call K V) :
    Accepts s (lookup.create s c call) a := by
  refine .none rfl fun e => ?_
  by_cases he : e = s.nextEntry
  · subst he
    rw [hg.fresh _ le_rfl]
    change valuesOf (Function.update s.entries s.nextEntry _ s.nextEntry) = [] ↔ _
    rw [Function.update_self]
    exact ⟨fun _ => rfl, fun _ => rfl⟩
  · change valuesOf (Function.update s.entries s.nextEntry _ e) = [] ↔ _
    rw [Function.update_of_ne he]

theorem step_onward (hg : GroupsOk s) (hs : step deadlineOf s a = some t) :
    Onward s t ∧ Accepts s t a := by
  cases a with
  | join c =>
    simp only [step] at hs
    cases hc : s.calls c <;> simp only [hc, reduceCtorEq, Option.some.injEq] at hs
    subst hs
    refine ⟨⟨List.Subset.refl _, fun c' call h => ⟨call, ?_, rfl, rfl⟩⟩, .same rfl rfl⟩
    refine (Function.update_of_ne ?_ _ _).trans h
    rintro rfl
    rw [hc] at h
    cases h
  | lookup c =>
    simp only [step, Option.bind_eq_bind, Option.bind_eq_some_iff] at hs
    obtain ⟨call, hc, hs⟩ := hs
    cases hpc : call.pc <;> simp only [hpc, reduceCtorEq, Option.some.injEq] at hs
    subst hs
    rw [lookup]
    split
    · split_ifs
      · exact ⟨⟨List.Subset.refl _, calls_setCall hc _⟩, create_accepts hg c call⟩
      · exact ⟨⟨List.Subset.refl _, calls_setCall hc _⟩, .same rfl rfl⟩
    · exact ⟨⟨List.Subset.refl _, calls_setCall hc _⟩, create_accepts hg c call⟩
  | lock c =>
    simp only [step, Option.bind_eq_bind, Option.bind_eq_some_iff] at hs
    obtain ⟨call, hc, hs⟩ := hs
    cases hpc : call.pc <;> simp only [hpc, reduceCtorEq] at hs
    rename_i e
    obtain ⟨x, hx, hs⟩ := Option.bind_eq_some_iff.1 hs
    split_ifs at hs with hl hend
    · rw [Option.some.injEq] at hs
      subst hs
      exact ⟨⟨List.Subset.refl _, calls_setCall hc _⟩, .same rfl rfl⟩
    · rw [Option.some.injEq] at hs
      subst hs
      refine ⟨?_, .value c call e x rfl ⟨hc, hpc, hx, hl, by simpa using hend⟩ rfl⟩
      obtain ⟨x', pc, timers, n, heq, -⟩ := accept_eq s c call e x
      rw [heq]
      exact ⟨List.Subset.refl _, calls_setCall hc _⟩
  | invoked c result =>
    simp only [step, Option.bind_eq_bind, Option.bind_eq_some_iff] at hs
    obtain ⟨call, hc, hs⟩ := hs
    cases hpc : call.pc <;> simp only [hpc, reduceCtorEq] at hs
    obtain ⟨x, hx, hs⟩ := Option.bind_eq_some_iff.1 hs
    rw [Option.some.injEq] at hs
    subst hs
    cases result
    · exact ⟨⟨List.Subset.refl _, calls_setCall hc _⟩, .keep hx rfl rfl rfl⟩
    · exact ⟨⟨List.subset_append_left _ _, calls_setCall hc _⟩, .keep hx rfl rfl rfl⟩
  | remove c =>
    simp only [step, Option.bind_eq_bind, Option.bind_eq_some_iff] at hs
    obtain ⟨call, hc, hs⟩ := hs
    cases hpc : call.pc <;> simp only [hpc, reduceCtorEq, Option.some.injEq] at hs
    subst hs
    exact ⟨⟨List.Subset.refl _, calls_setCall hc _⟩, .same rfl rfl⟩
  | drop c =>
    simp only [step, Option.bind_eq_bind, Option.bind_eq_some_iff] at hs
    obtain ⟨call, hc, hs⟩ := hs
    cases hpc : call.pc <;> simp only [hpc, reduceCtorEq] at hs
    case invoking e vals =>
      obtain ⟨x, hx, hs⟩ := Option.bind_eq_some_iff.1 hs
      rw [Option.some.injEq] at hs
      subst hs
      exact ⟨⟨List.Subset.refl _, calls_setCall hc _⟩, .keep hx rfl rfl rfl⟩
    all_goals
      rw [Option.some.injEq] at hs
      subst hs
      exact ⟨⟨List.Subset.refl _, calls_setCall hc _⟩, .same rfl rfl⟩
  | wake j =>
    simp only [step, Option.bind_eq_bind, Option.bind_eq_some_iff] at hs
    obtain ⟨z, hz, hs⟩ := hs
    cases hpc : z.pc <;> simp only [hpc, reduceCtorEq] at hs
    split_ifs at hs <;>
      (rw [Option.some.injEq] at hs
       subst hs
       exact ⟨⟨List.Subset.refl _, calls_same⟩, .same rfl rfl⟩)
  | expire j =>
    simp only [step, Option.bind_eq_bind, Option.bind_eq_some_iff] at hs
    obtain ⟨z, hz, hs⟩ := hs
    cases hpc : z.pc <;> simp only [hpc, reduceCtorEq] at hs
    obtain ⟨x, hx, hs⟩ := Option.bind_eq_some_iff.1 hs
    split_ifs at hs with hl
    rw [Option.some.injEq] at hs
    subst hs
    rw [expire]
    split
    · exact ⟨⟨List.Subset.refl _, calls_same⟩, .same rfl rfl⟩
    · split
      · exact ⟨⟨List.Subset.refl _, calls_same⟩, .same rfl rfl⟩
      · exact ⟨⟨List.subset_append_left _ _, calls_same⟩, .keep hx rfl rfl rfl⟩
  | called j | callPanicked j | evict j =>
    simp only [step, Option.bind_eq_bind, Option.bind_eq_some_iff] at hs
    obtain ⟨z, hz, hs⟩ := hs
    cases hpc : z.pc <;> simp only [hpc, reduceCtorEq, Option.some.injEq] at hs
    subst hs
    exact ⟨⟨List.Subset.refl _, calls_same⟩, .same rfl rfl⟩
  | tick d | cancel context =>
    simp only [step, Option.some.injEq] at hs
    subst hs
    exact ⟨⟨List.Subset.refl _, calls_same⟩, .same rfl rfl⟩

end Steps

/-! ## First values -/

theorem firstOf_append (accepted : List (Accepted V)) (a : Accepted V) (e : ℕ) :
    firstOf (accepted ++ [a]) e =
      (firstOf accepted e).or (if a.entry = e then some a else none) := by
  rw [firstOf, List.find?_append]
  congr 1
  by_cases h : a.entry = e <;> simp [h]

theorem firstsOk_init : FirstsOk (State.init : State K V) := fun _ => ⟨fun _ => rfl, fun _ => rfl⟩

/-- After a value was accepted. -/
theorem FirstsOk.accept (h : FirstsOk s) {c : ℕ} {call : Call K V} {e : ℕ} {x : Item V} :
    FirstsOk (accept s c call e x) := by
  obtain ⟨x', pc, timers, n, heq, hv, -⟩ := accept_eq s c call e x
  rw [heq]
  intro e'
  change valuesOf (Function.update s.entries e (some x') e') = [] ↔ firstOf (_ ++ [_]) e' = none
  rw [firstOf_append]
  by_cases he : e' = e
  · subst he
    rw [Function.update_self, valuesOf_some, hv]
    simp [pushAt_ne_nil]
  · rw [Function.update_of_ne he, if_neg fun hc => he hc.symm, Option.or_none]
    exact h e'

theorem FirstsOk.next (h : FirstsOk s) (ha : Accepts s t a) : FirstsOk t := by
  cases ha with
  | none hacc hval => exact fun e => by rw [hval, hacc]; exact h e
  | value c call e x _ _ ht => exact ht ▸ h.accept

/-! ## Timers -/

/-- A timer was started for the group. -/
def Timed (s : State K V) (e : ℕ) : Prop := ∃ i y, s.timers i = some y ∧ y.entry = e

theorem guarded_iff (h : ExpiryOk s) (e : ℕ) :
    Guarded s e ↔ terminals s.terminal e ≠ [] ∨ Timed s e := by
  constructor
  · rintro (hend | ⟨i, y, hy, he, -⟩)
    · exact .inl hend
    · exact .inr ⟨i, y, hy, he⟩
  · rintro (hend | ⟨i, y, hy, rfl⟩)
    · exact .inl hend
    · rcases (h.live i y hy).2 with harmed | hend
      · exact .inr ⟨i, y, hy, rfl, harmed⟩
      · exact .inl hend

/-- A timer is only ever started for a group that holds a value. -/
theorem not_timed_of_empty (h : ExpiryOk s) {e : ℕ} (he : valuesOf (s.entries e) = []) :
    ¬ Timed s e := by
  rintro ⟨i, y, hy, rfl⟩
  exact (h.live i y hy).1 he

theorem Timed.next [DecidableEq K] (h : ExpiryOk s) {e : ℕ} (ht : Timed s e)
    (hs : step deadlineOf s a = some t) : Timed t e := by
  obtain ⟨i, y, hy, rfl⟩ := ht
  obtain ⟨y', hy', he⟩ := step_timer h hs hy
  exact ⟨i, y', hy', he⟩

/-- **The first value of a group** starts a timer if both calls had time left, and only then. -/
theorem timed_accept_iff (h : ExpiryOk s) {c : ℕ} {call : Call K V} {e : ℕ} {x : Item V}
    (hx : s.entries e = some x) (hv : x.values = []) :
    Timed (accept s c call e x) e ↔ 0 < call.effectiveTtl ∧ x.deadline.isSome := by
  have hnone : ¬ Timed s e := not_timed_of_empty h (by rw [hx, valuesOf_some, hv])
  have hempty : x.values.isEmpty = true := by rw [hv]; rfl
  unfold accept
  rw [if_pos hempty]
  by_cases httl : 0 < call.effectiveTtl
  · rw [if_pos httl]
    cases hd : x.deadline with
    | some deadline =>
      exact ⟨fun _ => ⟨httl, rfl⟩, fun _ => ⟨s.nextTimer, _, Function.update_self .., rfl⟩⟩
    | none => exact ⟨fun ht => absurd ht hnone, fun ht => nomatch ht.2⟩
  · rw [if_neg httl]
    exact ⟨fun ht => absurd ht hnone, fun ht => absurd ht.1 httl⟩

theorem terminal_accept (s : State K V) (c : ℕ) (call : Call K V) (e : ℕ) (x : Item V) :
    (accept s c call e x).terminal = s.terminal := by
  obtain ⟨x', pc, timers, n, heq, -⟩ := accept_eq s c call e x
  rw [heq]

/-! ## One step -/

theorem Onward.bounded (h : Onward s t) {c : ℕ} {call call' : Call K V}
    (hc : s.calls c = some call) (hc' : t.calls c = some call') :
    call'.Bounded deadlineOf ↔ call.Bounded deadlineOf := by
  obtain ⟨call₁, h₁, hctx, httl⟩ := h.calls c call hc
  rw [hc', Option.some.injEq] at h₁
  subst h₁
  rw [Call.Bounded, Call.Bounded, hctx, httl]

section Result

variable [DecidableEq K]

/-- A group that has its first value already stays guarded. -/
theorem Mortal.keep (hm : Mortal deadlineOf s) (hg : GroupsOk s) (he : ExpiryOk s)
    (hs : step deadlineOf s a = some t) {e : ℕ} {b : Accepted V} {call : Call K V}
    (hb : firstOf s.accepted e = some b) (hc : t.calls b.call = some call)
    (hbound : call.Bounded deadlineOf) : Guarded t e := by
  have hon := (step_onward hg hs).1
  obtain ⟨call₀, hc₀, -⟩ := hg.calls.known b (List.mem_of_find?_eq_some hb)
  have hguard := hm e b call₀ hb hc₀ ((hon.bounded hc₀ hc).1 hbound)
  rw [guarded_iff he] at hguard
  rw [guarded_iff (he.step hg hs)]
  rcases hguard with hend | htimed
  · exact .inl (terminals_ne_nil_of_subset hon.terminal hend)
  · exact .inr (htimed.next he hs)

theorem Mortal.next (hm : Mortal deadlineOf s) (hg : GroupsOk s) (he : ExpiryOk s)
    (hf : FirstsOk s) (hs : step deadlineOf s a = some t) (ha : InTime deadlineOf s a) :
    Mortal deadlineOf t := by
  intro e b call hb hc hbound
  obtain ⟨hon, hacc⟩ := step_onward hg hs
  cases hacc with
  | none hsame _ =>
    rw [hsame] at hb
    exact hm.keep hg he hs hb hc hbound
  | value c call₀ e₀ x hac haccepting ht =>
    obtain ⟨x', pc, timers, n, heq, -⟩ := accept_eq s c call₀ e₀ x
    have hlist : t.accepted = s.accepted ++ [⟨e₀, c, call₀.index, call₀.value⟩] := by rw [ht, heq]
    rw [hlist, firstOf_append] at hb
    cases hfirst : firstOf s.accepted e with
    | some b₀ =>
      rw [hfirst, Option.some_or, Option.some.injEq] at hb
      subst hb
      exact hm.keep hg he hs hfirst hc hbound
    | none =>
      -- the value that was accepted is the first one
      rw [hfirst, Option.none_or] at hb
      split_ifs at hb with hee
      obtain rfl : e₀ = e := hee
      rw [Option.some.injEq] at hb
      subst hb
      have hval : x.values = [] := by
        have := (hf e₀).2 hfirst
        rwa [haccepting.item, valuesOf_some] at this
      have hbound₀ := (hon.bounded haccepting.known hc).1 hbound
      have htimely : 0 < call₀.effectiveTtl ∧ x.deadline.isSome := by
        subst hac
        exact ha call₀ e₀ x haccepting hval hbound₀
      rw [guarded_iff (he.step hg hs)]
      refine .inr ?_
      rw [ht]
      exact (timed_accept_iff he haccepting.item hval).2 htimely

/-- Without time left the group has no timer, and has not ended. -/
theorem Mortal.inTime (hg : GroupsOk s) (he : ExpiryOk s) (hf : FirstsOk s)
    (hs : step deadlineOf s a = some t) (hm : Mortal deadlineOf t) : InTime deadlineOf s a := by
  cases a with
  | lock c =>
    intro call e x hacc hval hbound
    have hstep : step deadlineOf s (.lock c) = some (accept s c call e x) := by
      simp only [step, hacc.known, Option.bind_eq_bind, Option.bind_some, hacc.pc, hacc.item,
        hacc.free, if_true, hacc.accepts, Bool.false_eq_true, if_false]
    rw [hstep, Option.some.injEq] at hs
    subst hs
    have hfirst : firstOf s.accepted e = none :=
      (hf e).1 (by rw [hacc.item, valuesOf_some, hval])
    obtain ⟨x', pc, timers, n, heq, -⟩ := accept_eq s c call e x
    have hguard : Guarded (accept s c call e x) e := by
      refine hm e ⟨e, c, call.index, call.value⟩ { call with pc := pc } ?_ ?_ hbound
      · rw [heq, firstOf_append, hfirst, if_pos rfl]
        rfl
      · rw [heq]
        exact Function.update_self ..
    rw [guarded_iff (he.step hg hstep), terminal_accept] at hguard
    have hopen : terminals s.terminal e = [] := by
      refine (hg.records.open_iff e).2 ?_
      have hp := hacc.accepts
      rw [Bool.or_eq_false_iff] at hp
      rw [hacc.item]
      exact hp.1
    exact (timed_accept_iff he hacc.item hval).1 (hguard.resolve_left fun h => h hopen)
  | _ => trivial

/-! ## Main result -/

/-- **No immortal group.** As long as both calls had time left whenever a group is to have a timer,
every group whose first value came with a deadline or a positive TTL has an armed timer until it
ends; and a step keeps it so exactly if they had. -/
theorem no_immortal_group (h : (system K V deadlineOf).Reach (InTime deadlineOf) s) :
    Mortal deadlineOf s ∧
      ∀ a t, step deadlineOf s a = some t → (Mortal deadlineOf t ↔ InTime deadlineOf s a) := by
  have hinv : GroupsOk s ∧ ExpiryOk s ∧ FirstsOk s ∧ Mortal deadlineOf s := by
    refine System.Reach.invariant
      (I := fun s => GroupsOk s ∧ ExpiryOk s ∧ FirstsOk s ∧ Mortal deadlineOf s)
      ⟨groupsOk_init, expiryOk_init, firstsOk_init, fun _ _ _ hb => by cases hb⟩
      (fun s a t hi ha hs => ?_) h
    obtain ⟨hg, he, hf, hm⟩ := hi
    exact ⟨hg.step hs, he.step hg hs, hf.next (step_onward hg hs).2, hm.next hg he hf hs ha⟩
  obtain ⟨hg, he, hf, hm⟩ := hinv
  exact ⟨hm, fun a t hs => ⟨Mortal.inTime hg he hf hs, hm.next hg he hf hs⟩⟩

end Result

/-- The context of call `0` has a deadline that has passed. -/
def passed : List (Action ℕ ℕ) :=
  [.tick 5, .join 0 0 7 0 10 0 60 false, .lookup 0, .lock 0, .invoked 0 false]

theorem passed_runs : ((system ℕ ℕ fun _ => some 3).run .init passed).isSome := by
  decide +kernel

/-- The group stays in the map with its value, and has no timer. -/
theorem passed_deadline_immortal :
    ∃ s, (system ℕ ℕ fun _ => some 3).Reachable s ∧ s.items.lookup 7 = some 0 ∧
      ¬ Mortal (fun _ => some 3) s := by
  have h := System.reachable_get passed_runs
  set s := ((system ℕ ℕ fun _ => some 3).run .init passed).get passed_runs
  have he : ExpiryOk s := expiryOk_reachable h
  refine ⟨s, h, by decide +kernel, fun hm => ?_⟩
  have hguard := hm 0 _ _ (rfl : firstOf s.accepted 0 = some ⟨0, 0, 0, 10⟩) rfl (.inl rfl)
  rcases (guarded_iff he 0).1 hguard with hend | ⟨i, y, hy, -⟩
  · exact hend (by decide +kernel)
  · have hnext : s.nextTimer = 0 := by decide +kernel
    rw [(he.fresh i (by rw [hnext]; exact Nat.zero_le i)).1] at hy
    cases hy

/-- Whoever takes the lock of a group had time left, and so had the call that made the group. -/
def inTime (s : State K V) : Action K V → Bool
  | .lock c =>
    match s.calls c with
    | some call =>
      match call.pc with
      | .locking e => (s.entries e).all fun x => 0 < call.effectiveTtl && x.deadline.isSome
      | _ => true
    | none => true
  | _ => true

theorem inTime_of_inTime (f : ℕ → Option ℕ) (s : State K V) (a : Action K V)
    (h : inTime s a = true) : InTime f s a := by
  cases a with
  | lock c =>
    intro call e x hacc _ _
    simp only [inTime, hacc.known, hacc.pc, hacc.item, Option.all_some, Bool.and_eq_true,
      decide_eq_true_eq] at h
    exact h
  | _ => trivial

/-- A group with a TTL, whose first callback does not complete it. -/
def timedGroup : List (Action ℕ ℕ) :=
  [.join 0 0 7 0 10 0 5 false, .lookup 0, .lock 0, .invoked 0 false]

theorem timedGroup_runs : (((system ℕ ℕ fun _ => none).restrict fun s a => inTime s a = true).run
    .init timedGroup).isSome := by
  decide +kernel

theorem no_immortal_group_timedGroup :
    ∃ s, (system ℕ ℕ fun _ => none).Reach (InTime fun _ => none) s ∧
      s.items.lookup 7 = some 0 ∧ Guarded s 0 := by
  have h := (System.reachable_get (S := (system ℕ ℕ fun _ => none).restrict fun s a =>
    inTime s a = true) timedGroup_runs).reach.mono (inTime_of_inTime fun _ => none)
  set s := (((system ℕ ℕ fun _ => none).restrict fun s a => inTime s a = true).run
    .init timedGroup).get timedGroup_runs
  refine ⟨s, h, by decide +kernel, ?_⟩
  exact (no_immortal_group h).1 0 _ _ (rfl : firstOf s.accepted 0 = some ⟨0, 0, 0, 10⟩) rfl
    (.inr (by decide +kernel))

end JoinStorage

end ServiceLib
