import ServiceLib.Store.JoinRetry
import ServiceLib.Tally

/-!
# The metrics of the join storage

The storage counts its groups in a gauge, and the groups that were evicted after their expiry in a
counter. Both change in the critical sections of the map: `join_value_with` adds a group,
`remove_if_same` and `arm_expiry` remove one.

**Theorem (`join_metrics_account`).** Whenever the map is not locked, the gauge is the number of its
groups. A group is counted as evicted at most once, and only if an expiry callback was its end.

The idea: a group that has left the map does not come back, since only new groups enter it
(`step_grows`), and a timer comes to remove a group only by way of its callback (`EvictsOk`).
-/

namespace ServiceLib

namespace JoinStorage

variable {K V : Type}

/-! ## Metrics -/

/-- `HashMapJoinStorageMetrics`. The counter is kept as the groups that were counted. -/
structure Metrics where
  count : ℤ
  evictions : List ℕ

def Metrics.evictionsTotal (m : Metrics) : ℕ := m.evictions.length

structure MeteredState (K V : Type) where
  store : State K V
  metrics : Metrics

variable [DecidableEq K]

/-- What a step does to the metrics, in the critical section of the map. -/
def meter (s : State K V) (m : Metrics) : Action K V → Metrics
  | .lookup c =>
    match s.calls c with
    | some call =>
      if s.holds call.key then m
      else if (s.items.lookup call.key).isNone then { m with count := m.count + 1 } else m
    | none => m
  | .remove c =>
    match s.calls c with
    | some call =>
      match call.pc with
      | .removing e _ =>
        if s.items.lookup call.key = some e then { m with count := m.count - 1 } else m
      | _ => m
    | none => m
  | .evict i =>
    match s.timers i with
    | some timer =>
      if s.items.lookup timer.key = some timer.entry then
        { count := m.count - 1, evictions := m.evictions ++ [timer.entry] }
      else m
    | none => m
  | _ => m

/-- The storage with metrics that were configured before the first call. -/
def metered (K V : Type) [DecidableEq K] (deadlineOf : ℕ → Option ℕ) :
    System (MeteredState K V) (Action K V) where
  init := ⟨.init, ⟨0, []⟩⟩
  step s a := (step deadlineOf s.store a).map fun store => ⟨store, meter s.store s.metrics a⟩

variable {deadlineOf : ℕ → Option ℕ} {s t : State K V} {a : Action K V}

theorem metered_step {s t : MeteredState K V} (hs : (metered K V deadlineOf).step s a = some t) :
    step deadlineOf s.store a = some t.store ∧ t.metrics = meter s.store s.metrics a := by
  obtain ⟨store, hstep, heq⟩ := Option.map_eq_some_iff.mp hs
  cases heq
  exact ⟨hstep, rfl⟩

/-- The metrics do not influence the storage. -/
theorem metered_reachable {s : MeteredState K V} (h : (metered K V deadlineOf).Reachable s) :
    (system K V deadlineOf).Reachable s.store :=
  System.Reachable.invariant (S := metered K V deadlineOf)
    (I := fun s => (system K V deadlineOf).Reachable s.store) System.Reach.init
    (fun _ _ _ hi hs => hi.next (metered_step hs).1) h

/-! ## The gauge -/

theorem card_removeIfSame (items : HashMap K ℕ) (key : K) (e : ℕ) :
    ((removeIfSame items key e).keys.card : ℤ) =
      items.keys.card - if items.lookup key = some e then 1 else 0 := by
  unfold removeIfSame
  split
  case isTrue h =>
    have hcard := card_keys_erase (Finmap.mem_of_lookup_eq_some h)
    omega
  case isFalse => rw [sub_zero]

theorem count_meter (h : Steps deadlineOf s a t) {m : Metrics}
    (hcount : m.count = s.items.keys.card) : (meter s m a).count = t.items.keys.card := by
  cases h with
  | found e hc hpc hholds he =>
    simp only [meter, hc, hholds, if_true]
    exact hcount
  | @created c call hc hpc hholds =>
    simp only [meter, hc, hholds, Bool.false_eq_true, if_false]
    show _ = ((s.items.insert call.key s.nextEntry).keys.card : ℤ)
    split
    case isTrue hnone =>
      have hnew : call.key ∉ s.items :=
        Finmap.lookup_eq_none.mp (Option.isNone_iff_eq_none.mp hnone)
      rw [(card_keys_insert hnew _).2, hcount]
      push_cast
      rfl
    case isFalse hsome =>
      have hold : call.key ∈ s.items := by
        by_contra hnew
        exact hsome (Option.isNone_iff_eq_none.mpr (Finmap.lookup_eq_none.mpr hnew))
      rw [card_keys_replace hold, hcount]
  | @removed c e call retry hc hpc =>
    simp only [meter, hc, hpc]
    show _ = ((removeIfSame s.items call.key e).keys.card : ℤ)
    rw [card_removeIfSame, ← hcount]
    split
    · rfl
    · exact (sub_zero _).symm
  | @evicted i timer hi hpc =>
    simp only [meter, hi]
    show _ = ((removeIfSame s.items timer.key timer.entry).keys.card : ℤ)
    rw [card_removeIfSame, ← hcount]
    split
    · rfl
    · exact (sub_zero _).symm
  | @accepted c e call x hc hpc hx =>
    obtain ⟨x', pc, timers, n, heq, -⟩ := accept_eq s c call e x
    rw [heq]
    exact hcount
  | invoked result => cases result <;> exact hcount
  | @expired i timer x hi hpc hx hfree =>
    have hitems : (expire deadlineOf s i timer x).items = s.items := by
      unfold expire
      split
      · rfl
      · split <;> rfl
    rw [hitems]
    exact hcount
  | joined | late | dropped | released | retired | woken | called | callPanicked | ticked
  | cancelled => exact hcount

/-! ## Timers that remove -/

/-- A timer that is about to remove its group has ended it. -/
def EvictsOk (s : State K V) : Prop :=
  ∀ i y, s.timers i = some y → y.pc = .removing → (y.entry, Terminal.expired i) ∈ s.terminal

omit [DecidableEq K] in
theorem EvictsOk.mono (h : EvictsOk s) (htimers : t.timers = s.timers)
    (hterminal : s.terminal ⊆ t.terminal) : EvictsOk t := by
  intro i y hy hpc
  rw [htimers] at hy
  exact hterminal (h i y hy hpc)

omit [DecidableEq K] in
theorem EvictsOk.update (h : EvictsOk s) {i : ℕ} {y : Timer K V}
    (htimers : t.timers = Function.update s.timers i (some y))
    (hterminal : s.terminal ⊆ t.terminal)
    (hy : y.pc = .removing → (y.entry, Terminal.expired i) ∈ t.terminal) : EvictsOk t := by
  intro i' y' hy' hpc
  rw [htimers] at hy'
  by_cases hi : i' = i
  · subst hi
    rw [Function.update_self, Option.some.injEq] at hy'
    subst hy'
    exact hy hpc
  · rw [Function.update_of_ne hi] at hy'
    exact hterminal (h i' y' hy' hpc)

theorem EvictsOk.step (h : EvictsOk s) (hg : GroupsOk s) (hs : step deadlineOf s a = some t) :
    EvictsOk t := by
  have hterminal := (step_onward hg hs).1.terminal
  cases steps_of_step hs with
  | @accepted c e call x hc hpc hx =>
    obtain ⟨x', pc, timers, n, heq, -, -, -, -, harms⟩ := accept_eq s c call e x
    rw [heq] at hterminal ⊢
    cases harms with
    | keeps | panics => exact h.mono rfl hterminal
    | arms y _ hsleeps =>
      apply h.update (i := s.nextTimer) (y := y) rfl hterminal
      intro hremoving
      rw [hsleeps] at hremoving
      cases hremoving
  | @expired i timer x hi hpc hx hfree =>
    have hmoved : ∃ y : Timer K V, y.pc ≠ .removing ∧
        (expire deadlineOf s i timer x).timers = Function.update s.timers i (some y) := by
      unfold expire
      split
      · refine ⟨_, ?_, rfl⟩
        exact nofun
      · split <;>
          refine ⟨_, ?_, rfl⟩
        all_goals exact nofun
    obtain ⟨y, hne, htimers⟩ := hmoved
    exact h.update htimers hterminal (absurd · hne)
  | @called i callback context timer values hi hpc =>
    apply h.update (i := i) (y := { timer with pc := .removing }) rfl hterminal
    intro _
    exact hterminal (hg.calling i timer hi callback context values hpc).1
  | retired hi | woken hi | callPanicked hi | evicted hi =>
    exact h.update rfl hterminal nofun
  | @invoked c e call x values result hc hpc hx =>
    refine h.mono ?_ hterminal
    cases result <;> rfl
  | @created c call => exact h.mono rfl hterminal
  | joined | found | late | removed | dropped | released | ticked | cancelled =>
    exact h.mono rfl hterminal

/-! ## Evictions -/

/-- A group is stored under one key. -/
def KeysOk (s : State K V) : Prop :=
  ∀ k k' e, s.items.lookup k = some e → s.items.lookup k' = some e → k = k'

theorem KeysOk.step (h : KeysOk s) (hk : Known s) (hs : step deadlineOf s a = some t) :
    KeysOk t := by
  intro k k' e hlookup hlookup'
  obtain hold | ⟨rfl, -, c, call, rfl, hc, rfl⟩ := (step_grows hs).items k e hlookup
  · obtain hold' | ⟨rfl, -⟩ := (step_grows hs).items k' e hlookup'
    · exact h k k' e hold hold'
    · exact absurd (hk.items k _ hold) (Nat.lt_irrefl _)
  · obtain hold' | ⟨-, -, c', call', ha, hc', rfl⟩ := (step_grows hs).items k' _ hlookup'
    · exact absurd (hk.items k' _ hold') (Nat.lt_irrefl _)
    · cases ha
      rw [hc, Option.some.injEq] at hc'
      rw [hc']

/-- What has been counted as evicted has expired, and has left the map for good. -/
structure EvictedOk (s : State K V) (evictions : List ℕ) : Prop where
  nodup : evictions.Nodup
  made : ∀ e ∈ evictions, e < s.nextEntry
  gone : ∀ e ∈ evictions, ∀ k, s.items.lookup k ≠ some e
  expired : ∀ e ∈ evictions, ∃ i, (e, Terminal.expired i) ∈ s.terminal

theorem EvictedOk.step {evictions : List ℕ} (h : EvictedOk s evictions) (hg : GroupsOk s)
    (hs : step deadlineOf s a = some t) : EvictedOk t evictions where
  nodup := h.nodup
  made := fun e he => lt_of_lt_of_le (h.made e he) (step_grows hs).nextEntry
  gone := by
    intro e he k hlookup
    obtain hold | ⟨rfl, -⟩ := (step_grows hs).items k e hlookup
    · exact h.gone e he k hold
    · exact absurd (h.made _ he) (Nat.lt_irrefl _)
  expired := by
    intro e he
    obtain ⟨i, hi⟩ := h.expired e he
    exact ⟨i, (step_onward hg hs).1.terminal hi⟩

/-- The critical section that evicts a group. -/
theorem EvictedOk.evict {evictions : List ℕ} {i : ℕ} {y : Timer K V} (h : EvictedOk s evictions)
    (hk : Known s) (hkeys : KeysOk s) (hevicts : EvictsOk s) (hg : GroupsOk s)
    (hy : s.timers i = some y) (hpc : y.pc = .removing)
    (hs : JoinStorage.step deadlineOf s (.evict i) = some t)
    (hsame : s.items.lookup y.key = some y.entry) :
    EvictedOk t (evictions ++ [y.entry]) := by
  have hkept := h.step hg hs
  have hitems : t.items = removeIfSame s.items y.key y.entry := by
    cases steps_of_step hs with
    | evicted hi =>
      rw [hy, Option.some.injEq] at hi
      rw [← hi]
      rfl
  constructor
  case nodup =>
    apply List.nodup_append.mpr ⟨h.nodup, List.nodup_singleton _, ?_⟩
    rintro e he e' he' rfl
    rw [List.mem_singleton.mp he'] at he
    exact h.gone _ he y.key hsame
  case made =>
    exact forall_mem_concat hkept.made
      (lt_of_lt_of_le (hk.items _ _ hsame) (step_grows hs).nextEntry)
  case gone =>
    apply forall_mem_concat hkept.gone
    intro k hlookup
    rw [hitems] at hlookup
    have hkey := hkeys k y.key y.entry (lookup_removeIfSame hlookup) hsame
    rw [hkey] at hlookup
    exact lookup_removeIfSame_ne s.items y.key y.entry hlookup
  case expired =>
    apply forall_mem_concat hkept.expired
    exact ⟨i, (step_onward hg hs).1.terminal (hevicts i y hy hpc)⟩

/-! ## Main result -/

structure AccountsOk (s : MeteredState K V) : Prop where
  groups : GroupsOk s.store
  known : Known s.store
  keys : KeysOk s.store
  evicts : EvictsOk s.store
  count : s.metrics.count = s.store.items.keys.card
  evicted : EvictedOk s.store s.metrics.evictions

theorem accountsOk_init : AccountsOk (metered K V deadlineOf).init where
  groups := groupsOk_init
  known := known_init
  keys := fun _ _ _ h => by cases h
  evicts := nofun
  count := rfl
  evicted := ⟨List.nodup_nil, nofun, nofun, nofun⟩

/-- Only an eviction is counted as one. -/
theorem evictions_meter (s : State K V) (m : Metrics) (ha : ∀ i, a ≠ .evict i) :
    (meter s m a).evictions = m.evictions := by
  cases a with
  | evict i => exact absurd rfl (ha i)
  | lookup c =>
    simp only [meter]
    split
    · split
      · rfl
      · split <;> rfl
    · rfl
  | remove c =>
    simp only [meter]
    split
    · split
      · split <;> rfl
      · rfl
    · rfl
  | join | lock | invoked | drop | wake | expire | called | callPanicked | tick | cancel => rfl

theorem AccountsOk.step {s t : MeteredState K V} (h : AccountsOk s)
    (hs : (metered K V deadlineOf).step s a = some t) : AccountsOk t := by
  obtain ⟨store, metrics⟩ := t
  obtain ⟨hstep, rfl⟩ := metered_step hs
  refine ⟨h.groups.step hstep, h.known.step hstep, h.keys.step h.known hstep,
    h.evicts.step h.groups hstep, count_meter (steps_of_step hstep) h.count, ?_⟩
  · show EvictedOk store (meter s.store s.metrics a).evictions
    by_cases ha : ∃ i, a = .evict i
    · obtain ⟨i, rfl⟩ := ha
      cases steps_of_step hstep with
      | @evicted _ y hi hpc =>
        simp only [meter, hi]
        split
        case isTrue hsame =>
          exact h.evicted.evict h.known h.keys h.evicts h.groups hi hpc hstep hsame
        case isFalse => exact h.evicted.step h.groups hstep
    · rw [evictions_meter _ _ fun i hi => ha ⟨i, hi⟩]
      exact h.evicted.step h.groups hstep

/-- **The metrics account for the groups.** -/
theorem join_metrics_account {s : MeteredState K V}
    (h : (metered K V deadlineOf).Reachable s) :
    s.metrics.count = s.store.items.keys.card ∧
    s.metrics.evictions.Nodup ∧
    ∀ e ∈ s.metrics.evictions, (∃ i, terminals s.store.terminal e = [(e, .expired i)]) ∧
      ∀ c, (e, Terminal.completed c) ∉ s.store.terminal := by
  have hok : AccountsOk s :=
    System.Reachable.invariant (S := metered K V deadlineOf) (I := AccountsOk) accountsOk_init
      (fun _ _ _ hi hs => hi.step hs) h
  refine ⟨hok.count, hok.evicted.nodup, fun e he => ?_⟩
  obtain ⟨i, hi⟩ := hok.evicted.expired e he
  have hmem : (e, Terminal.expired i) ∈ terminals s.store.terminal e := mem_terminals.mpr hi
  have hlength : (terminals s.store.terminal e).length ≤ 1 := by
    rw [hok.groups.records.ended]
    exact Bool.toNat_le _
  obtain ⟨τ, hτ⟩ : ∃ τ, terminals s.store.terminal e = [τ] :=
    List.length_eq_one_iff.mp (le_antisymm hlength (List.length_pos_of_mem hmem))
  rw [hτ, List.mem_singleton] at hmem
  refine ⟨⟨i, by rw [hτ, hmem]⟩, fun c hc => ?_⟩
  have hcompleted : (e, Terminal.completed c) ∈ terminals s.store.terminal e :=
    mem_terminals.mpr hc
  rw [hτ, ← hmem, List.mem_singleton] at hcompleted
  cases hcompleted

/-- A group expires and is evicted, and a second one is started under its key. -/
def evictedLate : List (Action ℕ ℕ) :=
  [.join 0 0 7 0 10 0 5 false, .lookup 0, .lock 0, .invoked 0 false, .tick 5, .wake 0, .expire 0,
    .called 0, .evict 0, .join 1 1 7 0 11 0 5 false, .lookup 1]

theorem evictedLate_runs :
    ((metered ℕ ℕ fun _ => none).run ⟨.init, ⟨0, []⟩⟩ evictedLate).isSome := by
  decide +kernel

theorem join_metrics_account_evictedLate :
    ∃ s, (metered ℕ ℕ fun _ => none).Reachable s ∧ s.metrics.evictions = [0] ∧
      s.metrics.count = s.store.items.keys.card ∧
      ∀ c, (0, Terminal.completed c) ∉ s.store.terminal := by
  have h := System.reachable_get (S := metered ℕ ℕ fun _ => none) evictedLate_runs
  obtain ⟨hcount, -, hended⟩ := join_metrics_account h
  have hevictions : (((metered ℕ ℕ fun _ => none).run ⟨.init, ⟨0, []⟩⟩ evictedLate).get
      evictedLate_runs).metrics.evictions = [0] := by
    decide +kernel
  exact ⟨_, h, hevictions, hcount, (hended 0 (hevictions ▸ List.mem_singleton_self 0)).2⟩

end JoinStorage

end ServiceLib
