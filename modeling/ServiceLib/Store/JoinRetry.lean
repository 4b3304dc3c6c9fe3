import ServiceLib.Store.JoinAdmission

/-!
# How often a call starts over

Follows the loop of `join_value_with` in `src/runtime/store/hashmap.rs`. An iteration ends without
the value being accepted only if the group that the call has waited for was processed, or has
expired, when the call got its lock. The call removes the group from the map before it looks again.

**Theorem (`join_iterations_bounded`).** A call begins at most one iteration more than there are
groups of its key that it has found processed or expired, and these are all different. They include
the groups that the call has made itself. A call that has made its own group, and is alone on its
key, accepts its value in that iteration if it gets the lock before its TTL is over.

A group that the call has made is no different from the others: another call may be first to get
its lock, and complete it. Nor does the call get more time when it starts over, so one that never
gets a lock in time never ends (`own_groups_expire`).
-/

namespace ServiceLib

namespace JoinStorage

variable {K V : Type}

/-! ## Iterations -/

/-- The action begins an iteration of the call. -/
def begins (c : ℕ) : Action K V → Bool
  | .lookup c' => decide (c' = c)
  | _ => false

/-- The number of iterations that a call begins in a run. -/
def iterations (c : ℕ) (as : List (Action K V)) : ℕ := as.countP (begins c)

/-- The call that takes the action. -/
def actor : Action K V → Option ℕ
  | .lookup c | .lock c | .invoked c _ | .remove c | .drop c => some c
  | _ => none

/-- The group that the call finds processed or expired by this action. -/
def retires (s : State K V) (c : ℕ) : Action K V → Option ℕ
  | .lock c' =>
    if c' = c then do
      let call ← s.calls c
      match call.pc with
      | .locking e => do
        let x ← s.entries e
        if x.lock = none ∧ (x.processed || x.expired s.clock) then some e else none
      | _ => none
    else none
  | _ => none

variable [DecidableEq K]

/-- All the groups that the call finds processed or expired in a run. -/
def retired (deadlineOf : ℕ → Option ℕ) (c : ℕ) : State K V → List (Action K V) → List ℕ
  | _, [] => []
  | s, a :: as =>
    (retires s c a).toList ++ ((step deadlineOf s a).elim [] fun t => retired deadlineOf c t as)

/-! ## What a step does to a call -/

variable {s t u : State K V} {deadlineOf : ℕ → Option ℕ} {a : Action K V}
  {as : List (Action K V)} {c e : ℕ} {call : Call K V}

/-- What a step means to one call. -/
inductive Turn (s t : State K V) (a : Action K V) (c : ℕ) : Prop
  | other : begins c a = false → retires s c a = none → t.calls c = s.calls c → Turn s t a c
  | made (call : Call K V) : begins c a = false → retires s c a = none → s.calls c = none →
      t.calls c = some { call with pc := .lookup } → Turn s t a c
  | found (call : Call K V) (e : ℕ) : a = .lookup c → s.calls c = some call →
      call.pc = .lookup → t.calls c = some { call with pc := .locking e } →
      t.items.lookup call.key = some e → Turn s t a c
  /-- The group was processed, or has expired. -/
  | late (call : Call K V) (e : ℕ) : begins c a = false → s.calls c = some call →
      call.pc = .locking e → retires s c a = some e →
      t.calls c = some { call with pc := .removing e true } → t.items = s.items → Turn s t a c
  | again (call : Call K V) (e : ℕ) : begins c a = false → retires s c a = none →
      actor a = some c → s.calls c = some call → call.pc = .removing e true →
      t.calls c = some { call with pc := .lookup } →
      t.items = removeIfSame s.items call.key e → Turn s t a c
  /-- The value was accepted, or the call is over. -/
  | left (call : Call K V) (pc : CallPc V) : begins c a = false → retires s c a = none →
      actor a = some c → s.calls c = some call → t.calls c = some { call with pc := pc } →
      ¬ pc.Pending →
      (pc.entry = none ∨ pc.entry = call.pc.entry) → Turn s t a c

/-- A look-up leaves the call waiting for the group that is then stored. -/
theorem lookup_found (c : ℕ) (call : Call K V) :
    ∃ e, (JoinStorage.lookup s c call).calls =
        Function.update s.calls c (some { call with pc := .locking e }) ∧
      (JoinStorage.lookup s c call).items.lookup call.key = some e := by
  have hcreate : (lookup.create s c call).items.lookup call.key = some s.nextEntry :=
    Finmap.lookup_insert ..
  rw [JoinStorage.lookup]
  split
  · rename_i e x hfound
    simp only [Option.bind_eq_some_iff, Option.map_eq_some_iff, Prod.mk.injEq] at hfound
    obtain ⟨_, hi, _, -, rfl, rfl⟩ := hfound
    split_ifs
    · exact ⟨s.nextEntry, rfl, hcreate⟩
    · exact ⟨_, rfl, hi⟩
  · exact ⟨s.nextEntry, rfl, hcreate⟩

theorem step_turn (hs : step deadlineOf s a = some t) (c : ℕ) : Turn s t a c := by
  cases a with
  | join c' =>
    simp only [step] at hs
    cases hc' : s.calls c' <;> simp only [hc', reduceCtorEq, Option.some.injEq] at hs
    subst hs
    by_cases hcc : c = c'
    · subst hcc
      exact .made _ rfl rfl hc' (Function.update_self ..)
    · exact .other rfl rfl (Function.update_of_ne hcc ..)
  | lookup c' =>
    simp only [step, Option.bind_eq_bind, Option.bind_eq_some_iff] at hs
    obtain ⟨call, hc', hs⟩ := hs
    cases hpc : call.pc <;> simp only [hpc, reduceCtorEq, Option.some.injEq] at hs
    subst hs
    obtain ⟨e, hcalls, hitems⟩ := lookup_found (s := s) c' call
    by_cases hcc : c = c'
    · subst hcc
      refine .found call e rfl hc' hpc ?_ hitems
      rw [hcalls, Function.update_self]
    · refine .other (decide_eq_false (Ne.symm hcc)) rfl ?_
      rw [hcalls, Function.update_of_ne hcc]
  | lock c' =>
    simp only [step, Option.bind_eq_bind, Option.bind_eq_some_iff] at hs
    obtain ⟨call, hc', hs⟩ := hs
    cases hpc : call.pc <;> simp only [hpc, reduceCtorEq] at hs
    rename_i e
    obtain ⟨x, hx, hs⟩ := Option.bind_eq_some_iff.1 hs
    split_ifs at hs with hl hend
    · rw [Option.some.injEq] at hs
      subst hs
      by_cases hcc : c = c'
      · subst hcc
        refine .late call e rfl hc' hpc ?_ (Function.update_self ..) rfl
        simp only [retires, hc', hx, hl, hend, Option.bind_eq_bind, Option.bind_some, hpc, if_true,
          and_self]
      · exact .other rfl (if_neg (Ne.symm hcc)) (Function.update_of_ne hcc ..)
    · rw [Option.some.injEq] at hs
      subst hs
      obtain ⟨x', pc, timers, n, heq, -, -, -, hpcs, -⟩ := accept_eq s c' call e x
      by_cases hcc : c = c'
      · subst hcc
        refine .left call pc rfl ?_ rfl hc' ?_ ?_ ?_
        · simp only [retires, hc', hx, hl, hend, Option.bind_eq_bind, Option.bind_some, hpc,
            if_true, and_false, Bool.false_eq_true, if_false]
        · rw [heq]
          exact Function.update_self ..
        · rcases hpcs with ⟨rfl, -⟩ | ⟨rfl, -⟩ <;> exact id
        · rcases hpcs with ⟨rfl, -⟩ | ⟨rfl, -⟩
          · rw [hpc]
            exact Or.inr rfl
          · exact Or.inl rfl
      · refine .other rfl (if_neg (Ne.symm hcc)) ?_
        rw [heq]
        exact Function.update_of_ne hcc ..
  | invoked c' result =>
    simp only [step, Option.bind_eq_bind, Option.bind_eq_some_iff] at hs
    obtain ⟨call, hc', hs⟩ := hs
    cases hpc : call.pc <;> simp only [hpc, reduceCtorEq] at hs
    obtain ⟨x, hx, hs⟩ := Option.bind_eq_some_iff.1 hs
    rw [Option.some.injEq] at hs
    subst hs
    by_cases hcc : c = c'
    · subst hcc
      cases result
      · exact .left call .returned rfl rfl rfl hc' (Function.update_self ..) id (Or.inl rfl)
      · refine .left call _ rfl rfl rfl hc' (Function.update_self ..) id ?_
        rw [hpc]
        exact Or.inr rfl
    · cases result <;> exact .other rfl rfl (Function.update_of_ne hcc ..)
  | remove c' =>
    simp only [step, Option.bind_eq_bind, Option.bind_eq_some_iff] at hs
    obtain ⟨call, hc', hs⟩ := hs
    cases hpc : call.pc <;> simp only [hpc, reduceCtorEq, Option.some.injEq] at hs
    rename_i e retry
    subst hs
    by_cases hcc : c = c'
    · subst hcc
      cases retry
      · exact .left call .returned rfl rfl rfl hc' (Function.update_self ..) id (Or.inl rfl)
      · exact .again call e rfl rfl rfl hc' hpc (Function.update_self ..) rfl
    · exact .other rfl rfl (Function.update_of_ne hcc ..)
  | drop c' =>
    simp only [step, Option.bind_eq_bind, Option.bind_eq_some_iff] at hs
    obtain ⟨call, hc', hs⟩ := hs
    have hcalls : t.calls = Function.update s.calls c' (some { call with pc := .dropped }) := by
      cases hpc : call.pc <;> simp only [hpc, reduceCtorEq] at hs
      case invoking e vals =>
        obtain ⟨x, hx, hs⟩ := Option.bind_eq_some_iff.1 hs
        rw [Option.some.injEq] at hs
        subst hs
        rfl
      all_goals
        rw [Option.some.injEq] at hs
        subst hs
        rfl
    by_cases hcc : c = c'
    · subst hcc
      refine .left call .dropped rfl rfl rfl hc' ?_ id (Or.inl rfl)
      rw [hcalls, Function.update_self]
    · refine .other rfl rfl ?_
      rw [hcalls, Function.update_of_ne hcc]
  | expire j =>
    simp only [step, Option.bind_eq_bind, Option.bind_eq_some_iff] at hs
    obtain ⟨z, hz, hs⟩ := hs
    cases hpc : z.pc <;> simp only [hpc, reduceCtorEq] at hs
    obtain ⟨x, hx, hs⟩ := Option.bind_eq_some_iff.1 hs
    split_ifs at hs with hl
    rw [Option.some.injEq] at hs
    subst hs
    refine .other rfl rfl ?_
    rw [expire]
    split
    · rfl
    · split <;> rfl
  | wake j =>
    simp only [step, Option.bind_eq_bind, Option.bind_eq_some_iff] at hs
    obtain ⟨z, hz, hs⟩ := hs
    cases hpc : z.pc <;> simp only [hpc, reduceCtorEq] at hs
    split_ifs at hs
    all_goals
      rw [Option.some.injEq] at hs
      subst hs
      exact .other rfl rfl rfl
  | called j | callPanicked j | evict j =>
    simp only [step, Option.bind_eq_bind, Option.bind_eq_some_iff] at hs
    obtain ⟨z, hz, hs⟩ := hs
    cases hpc : z.pc <;> simp only [hpc, reduceCtorEq, Option.some.injEq] at hs
    subst hs
    exact .other rfl rfl rfl
  | tick d | cancel context =>
    simp only [step, Option.some.injEq] at hs
    subst hs
    exact .other rfl rfl rfl

/-! ## Counting -/

/-- The iterations that a call may begin without finding a group processed or expired first. -/
def credit : Option (Call K V) → ℕ
  | none => 1
  | some call =>
    match call.pc with
    | .lookup | .removing _ true => 1
    | _ => 0

omit [DecidableEq K] in
theorem credit_of_not_pending {pc : CallPc V} (hpc : ¬ pc.Pending) :
    credit (some { call with pc := pc }) = 0 := by
  cases pc with
  | lookup => exact absurd trivial hpc
  | locking e => exact absurd trivial hpc
  | removing e retry =>
    cases retry
    · rfl
    · exact absurd trivial hpc
  | _ => rfl

/-- Each iteration after the first is paid for by a group. -/
theorem Turn.credit_le (h : Turn s t a c) :
    (begins c a).toNat + credit (t.calls c) ≤
      credit (s.calls c) + (retires s c a).toList.length := by
  cases h with
  | other hb hr hc => rw [hb, hr, hc]; simp
  | made call hb hr hc ht => rw [hb, hr, hc, ht]; simp [credit]
  | found call e ha hc hpc ht hi =>
    rw [ha, hc, ht]
    simp [credit, hpc, begins]
  | late call e hb hc hpc hr ht =>
    rw [hb, hr, hc, ht]
    simp [credit]
  | again call e hb hr ha hc hpc ht =>
    rw [hb, hr, hc, ht]
    simp [credit, hpc]
  | left call pc hb hr ha hc ht hpc he =>
    rw [hb, ht, credit_of_not_pending hpc]
    simp

theorem iterations_le (as : List (Action K V)) : ∀ {s u : State K V},
    (system K V deadlineOf).run s as = some u →
      iterations c as ≤ (retired deadlineOf c s as).length + credit (s.calls c) := by
  induction as with
  | nil => exact fun _ => Nat.zero_le _
  | cons a as ih =>
    intro s u h
    obtain ⟨t, hs, hrun⟩ := Option.bind_eq_some_iff.1 h
    have hstep : step deadlineOf s a = some t := hs
    have hle := (step_turn hstep c).credit_le
    have htail := ih hrun
    have hcount : iterations c (a :: as) = iterations c as + (begins c a).toNat := by
      cases hb : begins c a <;> simp [iterations, hb]
    rw [hcount, retired, hstep, Option.elim_some, List.length_append]
    omega

/-! ## The map -/

theorem lookup_removeIfSame {items : HashMap K ℕ} {key k : K} {e e' : ℕ}
    (h : (removeIfSame items key e').lookup k = some e) : items.lookup k = some e := by
  unfold removeIfSame at h
  split_ifs at h
  · by_cases hk : k = key
    · subst hk
      rw [Finmap.lookup_erase] at h
      cases h
    · rwa [Finmap.lookup_erase_ne hk] at h
  · exact h

theorem lookup_removeIfSame_ne (items : HashMap K ℕ) (key : K) (e : ℕ) :
    (removeIfSame items key e).lookup key ≠ some e := by
  unfold removeIfSame
  split_ifs with h
  · rw [Finmap.lookup_erase]
    simp
  · exact h

/-- The map only gets new groups. -/
structure Grows (s t : State K V) (a : Action K V) : Prop where
  nextEntry : s.nextEntry ≤ t.nextEntry
  items : ∀ k e, t.items.lookup k = some e → s.items.lookup k = some e ∨
    (e = s.nextEntry ∧ s.nextEntry < t.nextEntry ∧
      ∃ c call, a = .lookup c ∧ s.calls c = some call ∧ call.key = k)

theorem Grows.same (hn : t.nextEntry = s.nextEntry) (hi : t.items = s.items) : Grows s t a :=
  ⟨hn.ge, fun _ _ h => Or.inl (hi ▸ h)⟩

theorem Grows.remove {key : K} (hn : t.nextEntry = s.nextEntry)
    (hi : t.items = removeIfSame s.items key e) : Grows s t a :=
  ⟨hn.ge, fun _ _ h => Or.inl (lookup_removeIfSame (hi ▸ h))⟩

theorem grows_create (hc : s.calls c = some call) :
    Grows s (lookup.create s c call) (.lookup c) := by
  refine ⟨Nat.le_succ _, fun k e h => ?_⟩
  change (s.items.insert call.key s.nextEntry).lookup k = some e at h
  by_cases hk : k = call.key
  · subst hk
    rw [Finmap.lookup_insert, Option.some.injEq] at h
    exact Or.inr ⟨h.symm, Nat.lt_succ_self _, c, call, rfl, hc, rfl⟩
  · rw [Finmap.lookup_insert_of_ne _ hk] at h
    exact Or.inl h

theorem step_grows (hs : step deadlineOf s a = some t) : Grows s t a := by
  cases a with
  | join c' =>
    simp only [step] at hs
    cases hc' : s.calls c' <;> simp only [hc', reduceCtorEq, Option.some.injEq] at hs
    subst hs
    exact .same rfl rfl
  | lookup c' =>
    simp only [step, Option.bind_eq_bind, Option.bind_eq_some_iff] at hs
    obtain ⟨call, hc', hs⟩ := hs
    cases hpc : call.pc <;> simp only [hpc, reduceCtorEq, Option.some.injEq] at hs
    subst hs
    rw [JoinStorage.lookup]
    split
    · split_ifs
      · exact grows_create hc'
      · exact .same rfl rfl
    · exact grows_create hc'
  | lock c' =>
    simp only [step, Option.bind_eq_bind, Option.bind_eq_some_iff] at hs
    obtain ⟨call, hc', hs⟩ := hs
    cases hpc : call.pc <;> simp only [hpc, reduceCtorEq] at hs
    rename_i e
    obtain ⟨x, hx, hs⟩ := Option.bind_eq_some_iff.1 hs
    split_ifs at hs with hl hend
    · rw [Option.some.injEq] at hs
      subst hs
      exact .same rfl rfl
    · rw [Option.some.injEq] at hs
      subst hs
      obtain ⟨x', pc, timers, n, heq, -⟩ := accept_eq s c' call e x
      rw [heq]
      exact .same rfl rfl
  | invoked c' result =>
    simp only [step, Option.bind_eq_bind, Option.bind_eq_some_iff] at hs
    obtain ⟨call, hc', hs⟩ := hs
    cases hpc : call.pc <;> simp only [hpc, reduceCtorEq] at hs
    obtain ⟨x, hx, hs⟩ := Option.bind_eq_some_iff.1 hs
    rw [Option.some.injEq] at hs
    subst hs
    cases result <;> exact .same rfl rfl
  | remove c' =>
    simp only [step, Option.bind_eq_bind, Option.bind_eq_some_iff] at hs
    obtain ⟨call, hc', hs⟩ := hs
    cases hpc : call.pc <;> simp only [hpc, reduceCtorEq, Option.some.injEq] at hs
    subst hs
    exact .remove rfl rfl
  | drop c' =>
    simp only [step, Option.bind_eq_bind, Option.bind_eq_some_iff] at hs
    obtain ⟨call, hc', hs⟩ := hs
    cases hpc : call.pc <;> simp only [hpc, reduceCtorEq] at hs
    case invoking e vals =>
      obtain ⟨x, hx, hs⟩ := Option.bind_eq_some_iff.1 hs
      rw [Option.some.injEq] at hs
      subst hs
      exact .same rfl rfl
    all_goals
      rw [Option.some.injEq] at hs
      subst hs
      exact .same rfl rfl
  | expire j =>
    simp only [step, Option.bind_eq_bind, Option.bind_eq_some_iff] at hs
    obtain ⟨z, hz, hs⟩ := hs
    cases hpc : z.pc <;> simp only [hpc, reduceCtorEq] at hs
    obtain ⟨x, hx, hs⟩ := Option.bind_eq_some_iff.1 hs
    split_ifs at hs with hl
    rw [Option.some.injEq] at hs
    subst hs
    rw [expire]
    split
    · exact .same rfl rfl
    · split <;> exact .same rfl rfl
  | evict j =>
    simp only [step, Option.bind_eq_bind, Option.bind_eq_some_iff] at hs
    obtain ⟨z, hz, hs⟩ := hs
    cases hpc : z.pc <;> simp only [hpc, reduceCtorEq, Option.some.injEq] at hs
    subst hs
    exact .remove rfl rfl
  | wake j =>
    simp only [step, Option.bind_eq_bind, Option.bind_eq_some_iff] at hs
    obtain ⟨z, hz, hs⟩ := hs
    cases hpc : z.pc <;> simp only [hpc, reduceCtorEq] at hs
    split_ifs at hs
    all_goals
      rw [Option.some.injEq] at hs
      subst hs
      exact .same rfl rfl
  | called j | callPanicked j =>
    simp only [step, Option.bind_eq_bind, Option.bind_eq_some_iff] at hs
    obtain ⟨z, hz, hs⟩ := hs
    cases hpc : z.pc <;> simp only [hpc, reduceCtorEq, Option.some.injEq] at hs
    subst hs
    exact .same rfl rfl
  | tick d | cancel context =>
    simp only [step, Option.some.injEq] at hs
    subst hs
    exact .same rfl rfl

/-! ## Different groups -/

/-- The call is done with a group: it is about to remove it, the group is not in the map, or the
call does not start over any more. -/
def Shut (s : State K V) (c e : ℕ) : Prop :=
  e < s.nextEntry ∧ ∃ call, s.calls c = some call ∧ (call.pc = .removing e true ∨
    (call.pc ≠ .locking e ∧ s.items.lookup call.key ≠ some e) ∨ ¬ call.pc.Pending)

theorem Grows.lookup_ne (h : Grows s t a) (he : e < s.nextEntry) {k : K}
    (hk : s.items.lookup k ≠ some e) : t.items.lookup k ≠ some e := by
  intro hk'
  rcases h.items k e hk' with hold | ⟨rfl, -⟩
  · exact hk hold
  · exact absurd he (lt_irrefl _)

theorem Shut.step (h : Shut s c e) (hs : step deadlineOf s a = some t) : Shut t c e := by
  obtain ⟨he, call, hc, hshut⟩ := h
  have hgrows := step_grows hs
  refine ⟨lt_of_lt_of_le he hgrows.nextEntry, ?_⟩
  cases step_turn hs c with
  | other hb hr hct =>
    refine ⟨call, hct.trans hc, hshut.imp id fun h => h.imp (fun h => ?_) id⟩
    exact ⟨h.1, hgrows.lookup_ne he h.2⟩
  | made call' hb hr hnone ht =>
    rw [hnone] at hc
    cases hc
  | found call' e' ha hc' hpc ht hi =>
    rw [hc'] at hc
    cases hc
    rw [hpc] at hshut
    rcases hshut with hshut | ⟨-, hne⟩ | hpend
    · cases hshut
    · have hne' := hgrows.lookup_ne he hne
      refine ⟨_, ht, Or.inr (Or.inl ⟨fun heq => hne' ?_, hne'⟩)⟩
      cases heq
      exact hi
    · exact absurd trivial hpend
  | late call' e' hb hc' hpc hr ht hi =>
    rw [hc'] at hc
    cases hc
    rw [hpc] at hshut
    rcases hshut with hshut | ⟨-, hne⟩ | hpend
    · cases hshut
    · exact ⟨_, ht, Or.inr (Or.inl ⟨by simp, by rwa [hi]⟩)⟩
    · exact absurd trivial hpend
  | again call' e' hb hr ha hc' hpc ht hi =>
    rw [hc'] at hc
    cases hc
    rw [hpc] at hshut
    refine ⟨_, ht, Or.inr (Or.inl ⟨by simp, ?_⟩)⟩
    rw [hi]
    rcases hshut with hshut | ⟨-, hne⟩ | hpend
    · cases hshut
      exact lookup_removeIfSame_ne _ _ _
    · exact fun hk => hne (lookup_removeIfSame hk)
    · exact absurd trivial hpend
  | left call' pc hb hr ha hc' ht hpc hentry => exact ⟨_, ht, Or.inr (Or.inr hpc)⟩

omit [DecidableEq K] in
/-- Only a group that the call waits for is found processed or expired. -/
theorem retires_eq_some (h : retires s c a = some e) : ∃ call x, a = .lock c ∧
    s.calls c = some call ∧ call.pc = .locking e ∧ s.entries e = some x ∧
      (x.processed || x.expired s.clock) = true := by
  cases a with
  | lock c' =>
    simp only [retires] at h
    split_ifs at h with hcc
    subst hcc
    simp only [Option.bind_eq_bind, Option.bind_eq_some_iff] at h
    obtain ⟨call, hc, h⟩ := h
    split at h
    · rename_i e' hpc
      simp only [Option.bind_eq_some_iff] at h
      obtain ⟨x, hx, h⟩ := h
      split_ifs at h with hend
      cases h
      exact ⟨call, x, rfl, hc, hpc, hx, hend.2⟩
    · cases h
  | _ => cases h

/-- A call does not find a group again that it is done with. -/
theorem Shut.notMem_retired (as : List (Action K V)) : ∀ {s : State K V}, Shut s c e →
    e ∉ retired deadlineOf c s as := by
  induction as with
  | nil => exact fun _ h => by cases h
  | cons a as ih =>
    intro s h hmem
    rw [retired, List.mem_append] at hmem
    rcases hmem with hmem | hmem
    · obtain ⟨call, x, -, hc, hpc, -⟩ := retires_eq_some (Option.mem_toList.1 hmem)
      obtain ⟨-, call', hc', hshut⟩ := h
      rw [hc] at hc'
      cases hc'
      rw [hpc] at hshut
      rcases hshut with hshut | ⟨hne, -⟩ | hpend
      · cases hshut
      · exact hne rfl
      · exact hpend trivial
    · cases hs : JoinStorage.step deadlineOf s a with
      | none =>
        rw [hs] at hmem
        cases hmem
      | some t =>
        rw [hs] at hmem
        exact ih (h.step hs) hmem

/-! ## Groups that exist -/

/-- Timers stay with their groups; a new one is for the group of the call that has its lock. -/
theorem step_timers (hs : step deadlineOf s a = some t) {i : ℕ} {y' : Timer K V}
    (hy' : t.timers i = some y') :
    (∃ y, s.timers i = some y ∧ y.entry = y'.entry) ∨
      ∃ c call, a = .lock c ∧ s.calls c = some call ∧ call.pc = .locking y'.entry := by
  have hset : ∀ {j : ℕ} {z z' : Timer K V}, s.timers j = some z →
      t.timers = Function.update s.timers j (some z') → z'.entry = z.entry →
      ∃ y, s.timers i = some y ∧ y.entry = y'.entry := by
    intro j z z' hz ht hentry
    rw [ht] at hy'
    by_cases hij : i = j
    · subst hij
      rw [Function.update_self, Option.some.injEq] at hy'
      subst hy'
      exact ⟨z, hz, hentry.symm⟩
    · rw [Function.update_of_ne hij] at hy'
      exact ⟨y', hy', rfl⟩
  cases a with
  | join c' =>
    simp only [step] at hs
    cases hc' : s.calls c' <;> simp only [hc', reduceCtorEq, Option.some.injEq] at hs
    subst hs
    exact Or.inl ⟨y', hy', rfl⟩
  | lookup c' =>
    simp only [step, Option.bind_eq_bind, Option.bind_eq_some_iff] at hs
    obtain ⟨call, hc', hs⟩ := hs
    cases hpc : call.pc <;> simp only [hpc, reduceCtorEq, Option.some.injEq] at hs
    subst hs
    refine Or.inl ⟨y', ?_, rfl⟩
    rw [JoinStorage.lookup] at hy'
    split at hy'
    · split_ifs at hy' <;> exact hy'
    · exact hy'
  | lock c' =>
    simp only [step, Option.bind_eq_bind, Option.bind_eq_some_iff] at hs
    obtain ⟨call, hc', hs⟩ := hs
    cases hpc : call.pc <;> simp only [hpc, reduceCtorEq] at hs
    rename_i e
    obtain ⟨x, hx, hs⟩ := Option.bind_eq_some_iff.1 hs
    split_ifs at hs with hl hend
    · rw [Option.some.injEq] at hs
      subst hs
      exact Or.inl ⟨y', hy', rfl⟩
    · rw [Option.some.injEq] at hs
      subst hs
      obtain ⟨x', pc, timers, n, heq, -, -, -, -, harms⟩ := accept_eq s c' call e x
      rw [heq] at hy'
      cases harms with
      | keeps => exact Or.inl ⟨y', hy', rfl⟩
      | panics => exact Or.inl ⟨y', hy', rfl⟩
      | arms y _ _ hentry _ =>
        change Function.update s.timers s.nextTimer (some y) i = some y' at hy'
        by_cases hi : i = s.nextTimer
        · subst hi
          rw [Function.update_self, Option.some.injEq] at hy'
          subst hy'
          exact Or.inr ⟨c', call, rfl, hc', hentry ▸ hpc⟩
        · rw [Function.update_of_ne hi] at hy'
          exact Or.inl ⟨y', hy', rfl⟩
  | invoked c' result =>
    simp only [step, Option.bind_eq_bind, Option.bind_eq_some_iff] at hs
    obtain ⟨call, hc', hs⟩ := hs
    cases hpc : call.pc <;> simp only [hpc, reduceCtorEq] at hs
    obtain ⟨x, hx, hs⟩ := Option.bind_eq_some_iff.1 hs
    rw [Option.some.injEq] at hs
    subst hs
    cases result <;> exact Or.inl ⟨y', hy', rfl⟩
  | remove c' =>
    simp only [step, Option.bind_eq_bind, Option.bind_eq_some_iff] at hs
    obtain ⟨call, hc', hs⟩ := hs
    cases hpc : call.pc <;> simp only [hpc, reduceCtorEq, Option.some.injEq] at hs
    subst hs
    exact Or.inl ⟨y', hy', rfl⟩
  | drop c' =>
    simp only [step, Option.bind_eq_bind, Option.bind_eq_some_iff] at hs
    obtain ⟨call, hc', hs⟩ := hs
    cases hpc : call.pc <;> simp only [hpc, reduceCtorEq] at hs
    case invoking e vals =>
      obtain ⟨x, hx, hs⟩ := Option.bind_eq_some_iff.1 hs
      rw [Option.some.injEq] at hs
      subst hs
      exact Or.inl ⟨y', hy', rfl⟩
    all_goals
      rw [Option.some.injEq] at hs
      subst hs
      exact Or.inl ⟨y', hy', rfl⟩
  | expire j =>
    simp only [step, Option.bind_eq_bind, Option.bind_eq_some_iff] at hs
    obtain ⟨z, hz, hs⟩ := hs
    cases hpc : z.pc <;> simp only [hpc, reduceCtorEq] at hs
    obtain ⟨x, hx, hs⟩ := Option.bind_eq_some_iff.1 hs
    split_ifs at hs with hl
    rw [Option.some.injEq] at hs
    subst hs
    unfold expire at hset
    refine Or.inl ?_
    split at hset
    · exact hset hz rfl rfl
    · split at hset
      · exact hset hz rfl rfl
      · exact hset hz rfl rfl
  | wake j =>
    simp only [step, Option.bind_eq_bind, Option.bind_eq_some_iff] at hs
    obtain ⟨z, hz, hs⟩ := hs
    cases hpc : z.pc <;> simp only [hpc, reduceCtorEq] at hs
    split_ifs at hs
    all_goals
      rw [Option.some.injEq] at hs
      subst hs
      exact Or.inl (hset hz rfl rfl)
  | called j | callPanicked j | evict j =>
    simp only [step, Option.bind_eq_bind, Option.bind_eq_some_iff] at hs
    obtain ⟨z, hz, hs⟩ := hs
    cases hpc : z.pc <;> simp only [hpc, reduceCtorEq, Option.some.injEq] at hs
    subst hs
    exact Or.inl (hset hz rfl rfl)
  | tick d | cancel context =>
    simp only [step, Option.some.injEq] at hs
    subst hs
    exact Or.inl ⟨y', hy', rfl⟩

/-- The map, the calls and the timers know only groups that were made. -/
structure Known (s : State K V) : Prop where
  items : ∀ k e, s.items.lookup k = some e → e < s.nextEntry
  calls : ∀ c call e, s.calls c = some call → call.pc.entry = some e → e < s.nextEntry
  timers : ∀ i y, s.timers i = some y → y.entry < s.nextEntry

theorem known_init : Known (State.init : State K V) where
  items := fun _ _ h => by cases h
  calls := fun _ _ _ h => by cases h
  timers := fun _ _ h => by cases h

theorem Known.step (h : Known s) (hs : step deadlineOf s a = some t) : Known t := by
  have hgrows := step_grows hs
  have hitems : ∀ k e, t.items.lookup k = some e → e < t.nextEntry := by
    intro k e hk
    rcases hgrows.items k e hk with hk | ⟨rfl, hlt, -⟩
    · exact lt_of_lt_of_le (h.items k e hk) hgrows.nextEntry
    · exact hlt
  refine ⟨hitems, fun c call e hc he => ?_, fun i y hy => ?_⟩
  · cases step_turn hs c with
    | other hb hr hct =>
      rw [hct] at hc
      exact lt_of_lt_of_le (h.calls c call e hc he) hgrows.nextEntry
    | made call' hb hr hnone ht =>
      rw [ht] at hc
      cases hc
      cases he
    | found call' e' ha hc' hpc ht hi =>
      rw [ht] at hc
      cases hc
      cases he
      exact hitems _ _ hi
    | late call' e' hb hc' hpc hr ht =>
      rw [ht] at hc
      cases hc
      cases he
      exact lt_of_lt_of_le (h.calls c call' e hc' (by rw [hpc]; rfl)) hgrows.nextEntry
    | again call' e' hb hr ha hc' hpc ht =>
      rw [ht] at hc
      cases hc
      cases he
    | left call' pc hb hr ha hc' ht hpc hentry =>
      rw [ht] at hc
      cases hc
      change pc.entry = some e at he
      rcases hentry with hentry | hentry
      · rw [hentry] at he
        cases he
      · rw [hentry] at he
        exact lt_of_lt_of_le (h.calls c call' e hc' he) hgrows.nextEntry
  · refine lt_of_lt_of_le ?_ hgrows.nextEntry
    rcases step_timers hs hy with ⟨y₀, hy₀, hentry⟩ | ⟨c, call, -, hc, hpc⟩
    · rw [← hentry]
      exact h.timers i y₀ hy₀
    · exact h.calls c call _ hc (by rw [hpc]; rfl)

theorem known_reachable (h : (system K V deadlineOf).Reachable s) : Known s :=
  h.invariant known_init fun _ _ _ hi hs => hi.step hs

/-! ## The groups that a call has found -/

/-- The groups that a call finds processed or expired are all different. -/
theorem retired_nodup (as : List (Action K V)) : ∀ {s : State K V}, Known s →
    (retired deadlineOf c s as).Nodup := by
  induction as with
  | nil => exact fun _ => List.nodup_nil
  | cons a as ih =>
    intro s h
    rw [retired]
    cases hs : step deadlineOf s a with
    | none =>
      rw [Option.elim_none, List.append_nil]
      cases retires s c a <;> simp
    | some t =>
      rw [Option.elim_some]
      have htail := ih (h.step hs)
      cases hr : retires s c a with
      | none => simpa using htail
      | some e =>
        rw [Option.toList_some, List.singleton_append, List.nodup_cons]
        refine ⟨Shut.notMem_retired as ?_, htail⟩
        obtain ⟨call, x, rfl, hc, hpc, -⟩ := retires_eq_some hr
        have hlt : e < t.nextEntry :=
          lt_of_lt_of_le (h.calls c call e hc (by rw [hpc]; rfl)) (step_grows hs).nextEntry
        cases step_turn hs c with
        | late call' e' hb hc' hpc' hr' ht =>
          rw [hr'] at hr
          cases hr
          exact ⟨hlt, _, ht, Or.inl rfl⟩
        | other hb hr' | made call' hb hr' | again call' e' hb hr' | left call' pc hb hr' =>
          rw [hr'] at hr
          cases hr
        | found call' e' ha => cases ha

/-- The run passes through the state. -/
def Passes (deadlineOf : ℕ → Option ℕ) (s : State K V) (as : List (Action K V)) (u : State K V) :
    Prop :=
  ∃ bs, bs <+: as ∧ (system K V deadlineOf).run s bs = some u

theorem passes_start (s : State K V) (as : List (Action K V)) : Passes deadlineOf s as s :=
  ⟨[], List.nil_prefix, rfl⟩

theorem Passes.cons (hs : step deadlineOf s a = some t) (h : Passes deadlineOf t as u) :
    Passes deadlineOf s (a :: as) u := by
  obtain ⟨bs, hbs, hrun⟩ := h
  refine ⟨a :: bs, List.cons_prefix_cons.2 ⟨rfl, hbs⟩, ?_⟩
  show ((system K V deadlineOf).step s a).bind _ = some u
  rw [show (system K V deadlineOf).step s a = some t from hs]
  exact hrun

/-- A group of the key of the call `c`, which finds it processed or expired. -/
structure FoundLate (deadlineOf : ℕ → Option ℕ) (s : State K V) (as : List (Action K V)) (c e : ℕ) :
    Prop where
  /-- The group was the one stored under the key of the call. -/
  ofKey : ∃ u call, Passes deadlineOf s as u ∧ u.calls c = some call ∧
    u.items.lookup call.key = some e
  late : ∃ u call x, Passes deadlineOf s as u ∧ u.calls c = some call ∧ call.pc = .locking e ∧
    u.entries e = some x ∧ (x.processed || x.expired u.clock) = true

theorem mem_retired_late (as : List (Action K V)) : ∀ {s : State K V},
    e ∈ retired deadlineOf c s as → ∃ u call x, Passes deadlineOf s as u ∧
      u.calls c = some call ∧ call.pc = .locking e ∧ u.entries e = some x ∧
      (x.processed || x.expired u.clock) = true := by
  induction as with
  | nil => exact fun h => by cases h
  | cons a as ih =>
    intro s h
    rw [retired, List.mem_append] at h
    rcases h with h | h
    · obtain ⟨call, x, -, hc, hpc, hx, hlate⟩ := retires_eq_some (Option.mem_toList.1 h)
      exact ⟨s, call, x, passes_start s _, hc, hpc, hx, hlate⟩
    · cases hs : step deadlineOf s a with
      | none =>
        rw [hs] at h
        cases h
      | some t =>
        rw [hs] at h
        obtain ⟨u, call, x, hu, hrest⟩ := ih h
        exact ⟨u, call, x, hu.cons hs, hrest⟩

/-- A call waits for a group from the start, or finds it under its key. -/
theorem mem_retired_ofKey (as : List (Action K V)) : ∀ {s : State K V},
    e ∈ retired deadlineOf c s as → (∃ call, s.calls c = some call ∧ call.pc = .locking e) ∨
      ∃ u call, Passes deadlineOf s as u ∧ u.calls c = some call ∧
        u.items.lookup call.key = some e := by
  induction as with
  | nil => exact fun h => by cases h
  | cons a as ih =>
    intro s h
    rw [retired, List.mem_append] at h
    rcases h with h | h
    · obtain ⟨call, x, -, hc, hpc, -⟩ := retires_eq_some (Option.mem_toList.1 h)
      exact Or.inl ⟨call, hc, hpc⟩
    · cases hs : step deadlineOf s a with
      | none =>
        rw [hs] at h
        cases h
      | some t =>
        rw [hs] at h
        rcases ih h with ⟨call, hc, hpc⟩ | ⟨u, call, hu, hrest⟩
        · cases step_turn hs c with
          | other hb hr hct => exact Or.inl ⟨call, hct ▸ hc, hpc⟩
          | found call' e' ha hc' hpc' ht hi =>
            rw [ht] at hc
            cases hc
            cases hpc
            exact Or.inr ⟨t, _, (passes_start t as).cons hs, ht, hi⟩
          | made call' hb hr hnone ht =>
            rw [ht] at hc
            cases hc
            cases hpc
          | late call' e' hb hc' hpc' hr ht =>
            rw [ht] at hc
            cases hc
            cases hpc
          | again call' e' hb hr ha hc' hpc' ht =>
            rw [ht] at hc
            cases hc
            cases hpc
          | left call' pc hb hr ha hc' ht hpending =>
            rw [ht] at hc
            cases hc
            cases hpc
            exact absurd trivial hpending
        · exact Or.inr ⟨u, call, hu.cons hs, hrest⟩

theorem foundLate_of_mem_retired (hc : s.calls c = none) (h : e ∈ retired deadlineOf c s as) :
    FoundLate deadlineOf s as c e := by
  refine ⟨?_, mem_retired_late as h⟩
  rcases mem_retired_ofKey as h with ⟨call, hcall, -⟩ | hkey
  · rw [hc] at hcall
    cases hcall
  · exact hkey

/-! ## A group of one's own -/

/-- A call is left alone with its key: it takes no action, and no other call looks the key up. -/
structure Alone (c : ℕ) (key : K) (s : State K V) (a : Action K V) : Prop where
  own : actor a ≠ some c
  key : ∀ c' call, a = .lookup c' → s.calls c' = some call → call.key ≠ key

/-- The call waits for a group that nobody else knows. -/
structure Own (s : State K V) (c : ℕ) (call : Call K V) (e : ℕ) (x : Item V) : Prop where
  waits : s.calls c = some { call with pc := .locking e }
  item : s.entries e = some x
  others : ∀ c' call', c' ≠ c → s.calls c' = some call' → call'.pc.entry ≠ some e
  timers : ∀ i y, s.timers i = some y → y.entry ≠ e
  keys : ∀ k, s.items.lookup k = some e → k = call.key

variable {x : Item V}

/-- The group is not the next one to be made. -/
theorem Own.ne_nextEntry (h : Own s c call e x) (hg : GroupsOk s) : e ≠ s.nextEntry := by
  rintro rfl
  have hnone := hg.fresh _ le_rfl
  rw [h.item] at hnone
  cases hnone

/-- Nobody acts on behalf of the group. -/
theorem Own.owner_ne (h : Own s c call e x) (ha : actor a ≠ some c) : owner s a ≠ some e := by
  have hcall : ∀ c', c' ≠ c → (s.calls c').bind (fun call => call.pc.entry) ≠ some e := by
    intro c' hne heq
    obtain ⟨call', hc', hentry⟩ := Option.bind_eq_some_iff.1 heq
    exact h.others c' call' hne hc' hentry
  have htimer : ∀ i, (s.timers i).map Timer.entry ≠ some e := by
    intro i heq
    obtain ⟨y, hy, hentry⟩ := Option.map_eq_some_iff.1 heq
    exact h.timers i y hy hentry
  cases a with
  | lock c' | invoked c' | remove c' | drop c' => exact hcall c' fun hcc => ha (hcc ▸ rfl)
  | wake i | expire i | called i | callPanicked i | evict i => exact htimer i
  | join | lookup | tick | cancel => exact fun heq => by cases heq

theorem Own.step (h : Own s c call e x) (hg : GroupsOk s) (hok : Alone c call.key s a)
    (hs : step deadlineOf s a = some t) : Own t c call e x where
  waits := by
    cases step_turn hs c with
    | other hb hr hct => exact hct.trans h.waits
    | made call' hb hr hnone ht =>
      rw [h.waits] at hnone
      cases hnone
    | found call' e' ha => exact absurd (ha ▸ rfl) hok.own
    | late call' e' hb hc' hpc hr =>
      obtain ⟨_, _, ha, -⟩ := retires_eq_some hr
      exact absurd (ha ▸ rfl) hok.own
    | again call' e' hb hr ha => exact absurd ha hok.own
    | left call' pc hb hr ha => exact absurd ha hok.own
  item := by
    have hne := h.owner_ne hok.own
    cases ho : owner s a with
    | none =>
      rw [step_entries hg hs ho (by rw [h.item]; rfl)]
      exact h.item
    | some e' =>
      rw [(step_local hs ho).entries e fun heq => hne (heq ▸ ho)]
      exact h.item
  others := by
    intro c' call' hcc hc' hentry
    cases step_turn hs c' with
    | other hb hr hct =>
      rw [hct] at hc'
      exact h.others c' call' hcc hc' hentry
    | made call₀ hb hr hnone ht =>
      rw [ht] at hc'
      cases hc'
      cases hentry
    | found call₀ e' ha hc₀ hpc ht hi =>
      rw [ht] at hc'
      cases hc'
      cases hentry
      rcases (step_grows hs).items _ _ hi with hold | ⟨heq, -⟩
      · exact hok.key c' call₀ ha hc₀ (h.keys _ hold)
      · exact h.ne_nextEntry hg heq
    | late call₀ e' hb hc₀ hpc hr ht =>
      rw [ht] at hc'
      cases hc'
      cases hentry
      exact h.others c' call₀ hcc hc₀ (by rw [hpc]; rfl)
    | again call₀ e' hb hr ha hc₀ hpc ht =>
      rw [ht] at hc'
      cases hc'
      cases hentry
    | left call₀ pc hb hr ha hc₀ ht hpc hpcs =>
      rw [ht] at hc'
      cases hc'
      change pc.entry = some e at hentry
      rcases hpcs with hpcs | hpcs
      · rw [hpcs] at hentry
        cases hentry
      · exact h.others c' call₀ hcc hc₀ (hpcs ▸ hentry)
  timers := by
    intro i y hy hentry
    rcases step_timers hs hy with ⟨y₀, hy₀, heq⟩ | ⟨c', call', ha, hc', hpc⟩
    · exact h.timers i y₀ hy₀ (heq.trans hentry)
    · refine h.others c' call' (fun hcc => hok.own ?_) hc' (by rw [hpc, hentry]; rfl)
      rw [ha, hcc]
      rfl
  keys := by
    intro k hk
    rcases (step_grows hs).items k e hk with hold | ⟨heq, -⟩
    · exact h.keys k hold
    · exact absurd heq (h.ne_nextEntry hg)

/-- The group that a call makes for itself. -/
theorem own_create (hk : Known s) :
    Own (lookup.create s c call) c call s.nextEntry
      ⟨[], false, 0, call.context, call.callback, none,
        if 0 < call.effectiveTtl then some (s.clock + call.effectiveTtl) else none, none⟩ where
  waits := Function.update_self ..
  item := Function.update_self ..
  others := by
    intro c' call' hcc hc' hentry
    change Function.update s.calls c _ c' = some call' at hc'
    rw [Function.update_of_ne hcc] at hc'
    exact lt_irrefl _ (hk.calls c' call' _ hc' hentry)
  timers := fun i y hy hentry => lt_irrefl s.nextEntry (hentry ▸ hk.timers i y hy)
  keys := by
    intro k hi
    by_contra hne
    change (s.items.insert call.key s.nextEntry).lookup k = some s.nextEntry at hi
    rw [Finmap.lookup_insert_of_ne _ hne] at hi
    exact lt_irrefl _ (hk.items k _ hi)

/-- There is no group under the key that has not expired. -/
def Vacant (s : State K V) (key : K) : Prop :=
  ∀ e x, s.items.lookup key = some e → s.entries e = some x → x.expired s.clock = true

theorem lookup_vacant (hv : Vacant s call.key) :
    JoinStorage.lookup s c call = lookup.create s c call := by
  rw [JoinStorage.lookup]
  split
  · rename_i e x hfound
    simp only [Option.bind_eq_some_iff, Option.map_eq_some_iff, Prod.mk.injEq] at hfound
    obtain ⟨_, hi, _, hx, rfl, rfl⟩ := hfound
    rw [if_pos (hv _ _ hi hx)]
  · rfl

omit [DecidableEq K] in
/-- A value is accepted without a panic by a group that has a deadline. -/
theorem accept_invoking {deadline : ℕ} (hd : x.deadline = some deadline) :
    (accept s c call e x).calls c =
      some { call with pc := .invoking e (pushAt x.values call.index call.value) } := by
  unfold accept
  split_ifs
  · simp only [hd]
    exact Function.update_self ..
  · exact Function.update_self ..
  · exact Function.update_self ..

/-- A call that has made a group and is left alone accepts its value if it gets the lock in time. -/
theorem own_group_accepts (h : (system K V deadlineOf).Reachable s) (hc : s.calls c = some call)
    (hpc : call.pc = .lookup) (httl : 0 < call.effectiveTtl) (hv : Vacant s call.key)
    (hs : step deadlineOf s (.lookup c) = some t)
    (hu : ((system K V deadlineOf).startedAt t).Reach (Alone c call.key) u)
    (hclock : u.clock < s.clock + call.effectiveTtl) :
    ∃ v vals, step deadlineOf u (.lock c) = some v ∧
      v.calls c = some { call with pc := .invoking s.nextEntry vals } := by
  have ht : t = lookup.create s c call := by
    simp only [JoinStorage.step, hc, hpc, Option.bind_eq_bind, Option.bind_some,
      Option.some.injEq] at hs
    rw [← hs, lookup_vacant hv]
  have hown : GroupsOk u ∧ Own u c call s.nextEntry
      ⟨[], false, 0, call.context, call.callback, none,
        if 0 < call.effectiveTtl then some (s.clock + call.effectiveTtl) else none, none⟩ := by
    refine System.Reach.invariant (S := (system K V deadlineOf).startedAt t)
      (I := fun w => GroupsOk w ∧ Own w c call s.nextEntry _) ?_ ?_ hu
    · refine ⟨(groupsOk_reachable h).step hs, ?_⟩
      rw [show ((system K V deadlineOf).startedAt t).init = t from rfl, ht]
      exact own_create (known_reachable h)
    · intro w a w' hw hok hstep
      exact ⟨hw.1.step hstep, hw.2.step hw.1 hok hstep⟩
  rw [if_pos httl] at hown
  obtain ⟨-, hown⟩ := hown
  refine ⟨accept u c { call with pc := .locking s.nextEntry } s.nextEntry ⟨[], false, 0,
    call.context, call.callback, none, some (s.clock + call.effectiveTtl), none⟩, _, ?_,
    accept_invoking rfl⟩
  simp [JoinStorage.step, hown.waits, hown.item, Item.expired, Nat.not_le.2 hclock]

/-- **Every iteration but one is due to a group that the call found too late.** These are different
groups of its key. A call that makes a group for itself, and is left alone with its key, accepts its
value in that iteration if it gets the lock before its TTL is over. -/
theorem join_iterations_bounded (deadlineOf : ℕ → Option ℕ) (c : ℕ) :
    (∀ (as : List (Action K V)) (s : State K V),
      (system K V deadlineOf).run .init as = some s →
        ∃ groups : List ℕ, groups.Nodup ∧ iterations c as ≤ groups.length + 1 ∧
          ∀ e ∈ groups, FoundLate deadlineOf .init as c e) ∧
      ∀ (s t u : State K V) (call : Call K V), (system K V deadlineOf).Reachable s →
        s.calls c = some call → call.pc = .lookup → 0 < call.effectiveTtl → Vacant s call.key →
        step deadlineOf s (.lookup c) = some t →
        ((system K V deadlineOf).startedAt t).Reach (Alone c call.key) u →
        u.clock < s.clock + call.effectiveTtl →
          ∃ v vals, step deadlineOf u (.lock c) = some v ∧
            v.calls c = some { call with pc := .invoking s.nextEntry vals } := by
  refine ⟨fun as s hrun => ?_, fun s t u call hreach hc hpc httl hv hs hu hclock =>
    own_group_accepts hreach hc hpc httl hv hs hu hclock⟩
  refine ⟨retired deadlineOf c .init as, retired_nodup as known_init, iterations_le as hrun,
    fun e he => foundLate_of_mem_retired rfl he⟩

/-- Four fifths of the TTL pass before a single call gets the lock. -/
theorem own_group_accepted_in_time : ∃ u v : State ℕ ℕ, u.clock = 4 ∧
    step (fun _ => none) u (.lock 0) = some v ∧
      ∃ vals, (v.calls 0).map Call.pc = some (.invoking 0 vals) := by
  have hjoin : (system ℕ ℕ fun _ => none).Reachable _ :=
    .step (a := .join 0 0 0 0 7 0 5 false) .init trivial rfl
  have htick : ∀ w, ((system ℕ ℕ fun _ => none).startedAt w).Reach (Alone 0 0)
      { w with clock := w.clock + 4 } := fun w =>
    .step (a := .tick 4) .init ⟨by simp [actor], fun _ _ ha => by cases ha⟩ rfl
  obtain ⟨v, vals, hs, hv⟩ := (join_iterations_bounded (fun _ => none) 0).2 _ _ _ _ hjoin rfl rfl
    (by decide) (fun _ _ hi => by cases hi) rfl (htick _) (by decide)
  exact ⟨_, v, rfl, hs, vals, by rw [hv]; rfl⟩

/-! ## Groups of one's own that do not last -/

/-- The groups that other calls than `c` make in a run. -/
def madeByOthers (deadlineOf : ℕ → Option ℕ) (c : ℕ) : State K V → List (Action K V) → List ℕ
  | _, [] => []
  | s, a :: as =>
    match step deadlineOf s a with
    | none => []
    | some t =>
      (if actor a ≠ some c ∧ s.nextEntry < t.nextEntry then [s.nextEntry] else []) ++
        madeByOthers deadlineOf c t as

/-- Another call is the first to get the lock of the group, and completes it. -/
def completedByOther : List (Action ℕ ℕ) :=
  [.join 0 0 0 0 7 0 5 false, .lookup 0, .join 1 1 0 0 8 1 5 false, .lookup 1, .lock 1,
    .invoked 1 true, .lock 0, .remove 0, .lookup 0]

/-- One iteration in which the group expires before the call gets its lock. -/
def lateRound : List (Action ℕ ℕ) := [.lookup 0, .tick 1, .lock 0, .remove 0]

def shortCall (pc : CallPc ℕ) : Call ℕ ℕ := ⟨pc, 0, 0, 0, 7, 0, 1, false⟩

/-- A single call, with a TTL of 1, that is about to look. -/
structure Lone (s : State ℕ ℕ) : Prop where
  call : s.calls 0 = some (shortCall .lookup)
  others : ∀ c, c ≠ 0 → s.calls c = none
  items : s.items.lookup 0 = none
  accepted : s.accepted = []

omit [DecidableEq K] in
theorem State.setCall_calls_self (s : State K V) (c : ℕ) (call : Call K V) (pc : CallPc V) :
    (s.setCall c call pc).calls c = some { call with pc := pc } :=
  Function.update_self ..

omit [DecidableEq K] in
theorem State.setCall_calls_ne (s : State K V) {c c' : ℕ} (hc : c' ≠ c) (call : Call K V)
    (pc : CallPc V) : (s.setCall c call pc).calls c' = s.calls c' :=
  Function.update_of_ne hc ..

theorem lock_late (deadlineOf : ℕ → Option ℕ) (hc : s.calls c = some call)
    (hpc : call.pc = .locking e) (hx : s.entries e = some x) (hl : x.lock = none)
    (hlate : (x.processed || x.expired s.clock) = true) :
    step deadlineOf s (.lock c) = some (s.setCall c call (.removing e true)) := by
  simp only [step, hc, hpc, hx, hl, hlate, Option.bind_eq_bind, Option.bind_some, if_true]

theorem remove_again (deadlineOf : ℕ → Option ℕ) (hc : s.calls c = some call)
    (hpc : call.pc = .removing e true) :
    step deadlineOf s (.remove c) = some (State.setCall
      { s with items := removeIfSame s.items call.key e } c call .lookup) := by
  simp only [step, hc, hpc, Option.bind_eq_bind, Option.bind_some, if_true]

/-- The group has expired when the call gets its lock, and the call is where it was. -/
theorem Lone.round {s : State ℕ ℕ} (h : Lone s) :
    ∃ t, (system ℕ ℕ fun _ => none).run s lateRound = some t ∧ Lone t := by
  have hv : Vacant s (shortCall .lookup).key := by
    intro e x hi
    rw [show (shortCall .lookup).key = 0 from rfl, h.items] at hi
    cases hi
  obtain ⟨s₁, h₁, hs₁⟩ : ∃ s₁ : State ℕ ℕ, step (fun _ => none) s (.lookup 0) = some s₁ ∧
      s₁ = lookup.create s 0 (shortCall .lookup) := by
    refine ⟨_, ?_, (lookup_vacant hv)⟩
    simp only [step, h.call, Option.bind_eq_bind, Option.bind_some]
    rfl
  have hc₁ : s₁.calls 0 = some (shortCall (.locking s.nextEntry)) := by
    rw [hs₁, lookup.create, State.setCall_calls_self]
    rfl
  have hx₁ : s₁.entries s.nextEntry =
      some ⟨[], false, 0, 0, 0, none, some (s.clock + 1), none⟩ := by
    rw [hs₁]
    exact Function.update_self ..
  have hi₁ : s₁.items.lookup 0 = some s.nextEntry := by
    rw [hs₁]
    exact Finmap.lookup_insert ..
  have ho₁ : ∀ c, c ≠ 0 → s₁.calls c = none := by
    intro c hc
    rw [hs₁]
    exact (Function.update_of_ne hc ..).trans (h.others c hc)
  have hclock : s₁.clock = s.clock := by rw [hs₁]; rfl
  have hacc : s₁.accepted = [] := by rw [hs₁]; exact h.accepted
  have h₃ := lock_late (fun _ => none) (s := { s₁ with clock := s₁.clock + 1 }) hc₁ rfl hx₁ rfl
    (by simp [Item.expired, hclock])
  have hc₃ : (State.setCall { s₁ with clock := s₁.clock + 1 } 0 (shortCall (.locking s.nextEntry))
      (.removing s.nextEntry true)).calls 0 = some (shortCall (.removing s.nextEntry true)) := by
    rw [State.setCall_calls_self]
    rfl
  have h₄ := remove_again (fun _ => none) hc₃ rfl
  have h₂ : step (fun _ => none) s₁ (.tick 1) = some { s₁ with clock := s₁.clock + 1 } := rfl
  refine ⟨_, System.run_trans (System.run_singleton h₁) (System.run_trans (System.run_singleton h₂)
    (System.run_trans (System.run_singleton h₃) (System.run_singleton h₄))),
    ⟨?_, fun c hc => ?_, ?_, hacc⟩⟩
  · rw [State.setCall_calls_self]
    rfl
  · rw [State.setCall_calls_ne _ hc]
    exact (State.setCall_calls_ne _ hc _ _).trans (ho₁ c hc)
  · show (removeIfSame s₁.items 0 s.nextEntry).lookup 0 = none
    rw [removeIfSame, if_pos hi₁, Finmap.lookup_erase]

theorem late_rounds (n : ℕ) : ∃ as s, (system ℕ ℕ fun _ => none).run .init as = some s ∧ Lone s ∧
    iterations 0 as = n := by
  induction n with
  | zero =>
    refine ⟨[.join 0 0 0 0 7 0 1 false], _, rfl, ⟨rfl, fun c hc => ?_, rfl, rfl⟩, rfl⟩
    exact Function.update_of_ne hc ..
  | succ n ih =>
    obtain ⟨as, s, hrun, hlone, hcount⟩ := ih
    obtain ⟨t, hround, hlone'⟩ := hlone.round
    refine ⟨as ++ lateRound, t, System.run_trans hrun hround, hlone', ?_⟩
    rw [iterations, List.countP_append, ← iterations, hcount]
    rfl

theorem completedByOther_runs :
    ((system ℕ ℕ fun _ => none).run .init completedByOther).isSome := by
  decide +kernel

/-- A call begins two iterations although no other call makes a group; and for every number of
iterations there is a run in which a call that is alone begins that many, and its value is still
not accepted. -/
theorem own_groups_expire :
    (((system ℕ ℕ fun _ => none).run .init completedByOther).isSome ∧
      iterations 0 completedByOther = 2 ∧
      madeByOthers (fun _ => none) 0 .init completedByOther = []) ∧
    ∀ n, ∃ as s, (system ℕ ℕ fun _ => none).run .init as = some s ∧ iterations 0 as = n ∧
      (∀ c, c ≠ 0 → s.calls c = none) ∧ s.accepted = [] := by
  refine ⟨⟨completedByOther_runs, by decide, by decide +kernel⟩, fun n => ?_⟩
  obtain ⟨as, s, hrun, hlone, hcount⟩ := late_rounds n
  exact ⟨as, s, hrun, hcount, hlone.others, hlone.accepted⟩

end JoinStorage

end ServiceLib
