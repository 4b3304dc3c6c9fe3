import ServiceLib.Store.JoinGroups

/-!
# Expiry timers stay armed

A group whose first value is accepted with a positive TTL has an expiry timer. `expiry_timer_kept`:
as long as the group has not ended, its timer is armed, also when the group leaves the map because
its deadline has passed; and it stays so until the group ends, at every moment able to deliver all
the values of the group.

A group whose first value is accepted with no TTL has no timer, and a later renewal does not create
one. The renewed deadline still makes the group expire for admission, so such a group can be
replaced while it holds values that no callback will see (`untimed_group_replaced`).

The invariant `ExpiryOk` says that a timer is armed or its group has ended. The token of a timer is
cancelled only through the group that holds it, and the generation of a group does not change once
it holds a value.
-/

namespace ServiceLib

namespace JoinStorage

variable {K V : Type}

/-! ## The invariant -/

/-- The timer waits for its time or for the lock of its group, is not cancelled, and will find its
group as it left it. -/
def Armed (entries : ℕ → Option (Item V)) (tokens : ℕ → Bool) (i : ℕ) (y : Timer K V) : Prop :=
  (y.pc = .sleeping ∨ y.pc = .locking) ∧ tokens i = false ∧
    ∃ x, entries y.entry = some x ∧ x.processed = false ∧ x.generation = y.generation

/-- A timer belongs to a group with values, and is armed until the group ends. -/
def Live (entries : ℕ → Option (Item V)) (tokens : ℕ → Bool) (terminal : List (ℕ × Terminal))
    (i : ℕ) (y : Timer K V) : Prop :=
  valuesOf (entries y.entry) ≠ [] ∧
    (Armed entries tokens i y ∨ terminals terminal y.entry ≠ [])

/-- A group holds the token of its own timer. -/
def TokensOk (entries : ℕ → Option (Item V)) (timers : ℕ → Option (Timer K V)) (nextTimer : ℕ) :
    Prop :=
  ∀ e x i, entries e = some x → x.expiry = some i →
    i < nextTimer ∧ ∀ y, timers i = some y → y.entry = e

structure ExpiryOk (s : State K V) : Prop where
  fresh : ∀ i, s.nextTimer ≤ i → s.timers i = none ∧ s.tokens i = false
  tokens : TokensOk s.entries s.timers s.nextTimer
  live : ∀ i y, s.timers i = some y → Live s.entries s.tokens s.terminal i y

theorem expiryOk_init : ExpiryOk (State.init : State K V) :=
  ⟨fun _ _ => ⟨rfl, rfl⟩, nofun, nofun⟩

/-! ## Frames -/

/-- What may happen to a group that has a timer. -/
def Holds (terminal' : List (ℕ × Terminal)) (e : ℕ) (x x' : Item V) : Prop :=
  x.values ≠ [] → x'.values ≠ [] ∧ x'.generation = x.generation ∧
    (x'.processed = x.processed ∨ terminals terminal' e ≠ [])

theorem terminals_ne_nil_of_subset {terminal terminal' : List (ℕ × Terminal)}
    (h : terminal ⊆ terminal') {e : ℕ} (he : terminals terminal e ≠ []) :
    terminals terminal' e ≠ [] := by
  obtain ⟨⟨e', τ⟩, hp⟩ := List.exists_mem_of_ne_nil _ he
  obtain rfl : e' = e := by simpa [terminals] using (List.mem_filter.1 hp).2
  exact List.ne_nil_of_mem (mem_terminals.2 (h (mem_terminals.1 hp)))

/-- A timer stays live when its group keeps what the timer looks for. -/
theorem Live.update {entries : ℕ → Option (Item V)} {tokens tokens' : ℕ → Bool}
    {terminal terminal' : List (ℕ × Terminal)} {i : ℕ} {y : Timer K V}
    (h : Live entries tokens terminal i y) {e : ℕ} {x' : Item V}
    (hx : ∀ x, entries e = some x → Holds terminal' e x x') (ht : terminal ⊆ terminal')
    (hk : tokens' i = tokens i ∨ terminals terminal' y.entry ≠ []) :
    Live (Function.update entries e (some x')) tokens' terminal' i y := by
  obtain ⟨hv, hlive⟩ := h
  by_cases he : y.entry = e
  · cases hy : entries y.entry with
    | none => rw [hy] at hv; exact absurd rfl hv
    | some x =>
      rw [hy, valuesOf_some] at hv
      obtain ⟨hv', hgen, hproc⟩ := hx x (he ▸ hy) hv
      refine ⟨by rw [he, Function.update_self]; exact hv', ?_⟩
      rcases hlive with ⟨hpc, htok, x₀, hx₀, hp₀, hg₀⟩ | hend
      · rw [hy, Option.some.injEq] at hx₀
        subst hx₀
        rcases hproc with hproc | hproc
        · rcases hk with hk | hk
          · refine .inl ⟨hpc, hk.trans htok, x', ?_, hproc.trans hp₀, hgen.trans hg₀⟩
            rw [he, Function.update_self]
          · exact .inr hk
        · exact .inr (he ▸ hproc)
      · exact .inr (terminals_ne_nil_of_subset ht hend)
  · refine ⟨by rwa [Function.update_of_ne he], ?_⟩
    rcases hlive with ⟨hpc, htok, hent⟩ | hend
    · rcases hk with hk | hk
      · exact .inl ⟨hpc, hk.trans htok, by rwa [Function.update_of_ne he]⟩
      · exact .inr hk
    · exact .inr (terminals_ne_nil_of_subset ht hend)

theorem TokensOk.update {entries : ℕ → Option (Item V)} {timers : ℕ → Option (Timer K V)}
    {nextTimer : ℕ} (h : TokensOk entries timers nextTimer) {e : ℕ} {x' : Item V}
    (hx : ∀ i, x'.expiry = some i → i < nextTimer ∧ ∀ y, timers i = some y → y.entry = e) :
    TokensOk (Function.update entries e (some x')) timers nextTimer := by
  intro e' x i hx' hi
  by_cases he : e' = e
  · subst he
    rw [Function.update_self, Option.some.injEq] at hx'
    exact hx i (hx' ▸ hi)
  · rw [Function.update_of_ne he] at hx'
    exact h e' x i hx' hi

variable {s : State K V}

/-- An entry changes and the timers do not. -/
theorem ExpiryOk.setEntry (h : ExpiryOk s) {e : ℕ} {x : Item V} (hx : s.entries e = some x)
    (x' : Item V) {terminal' : List (ℕ × Terminal)} (hh : Holds terminal' e x x') (ht : s.terminal ⊆ terminal')
    (hexp : x'.expiry = x.expiry ∨ x'.expiry = none) :
    ExpiryOk (State.setEntry { s with terminal := terminal' } e x') := by
  refine ⟨h.fresh, h.tokens.update fun i hi => ?_, fun i y hy => (h.live i y hy).update ?_ ht
    (.inl rfl)⟩
  · rcases hexp with hexp | hexp
    · exact h.tokens e x i hx (hexp ▸ hi)
    · rw [hexp] at hi
      cases hi
  · intro x₀ hx₀
    rw [hx, Option.some.injEq] at hx₀
    exact hx₀ ▸ hh

/-- The invariant does not read calls. -/
theorem ExpiryOk.setCall (h : ExpiryOk s) (c : ℕ) (call : Call K V) (pc : CallPc V) :
    ExpiryOk (s.setCall c call pc) :=
  ⟨h.fresh, h.tokens, h.live⟩

theorem ExpiryOk.setTimer (h : ExpiryOk s) {i : ℕ} {y y' : Timer K V} (hy : s.timers i = some y)
    (he : y'.entry = y.entry) (hl : Live s.entries s.tokens s.terminal i y') :
    ExpiryOk (s.setTimer i y') := by
  refine ⟨fun j hj => ⟨?_, (h.fresh j hj).2⟩, fun e x j hx hj => ?_, fun j z hz => ?_⟩
  · change Function.update s.timers i (some y') j = none
    rw [Function.update_of_ne]
    · exact (h.fresh j hj).1
    · rintro rfl
      rw [(h.fresh j hj).1] at hy
      cases hy
  · obtain ⟨hlt, hent⟩ := h.tokens e x j hx hj
    refine ⟨hlt, fun z hz => ?_⟩
    change Function.update s.timers i (some y') j = some z at hz
    by_cases hij : j = i
    · subst hij
      rw [Function.update_self, Option.some.injEq] at hz
      rw [← hz, he, hent y hy]
    · rw [Function.update_of_ne hij] at hz
      exact hent z hz
  · change Function.update s.timers i (some y') j = some z at hz
    by_cases hij : j = i
    · subst hij
      rw [Function.update_self, Option.some.injEq] at hz
      exact hz ▸ hl
    · rw [Function.update_of_ne hij] at hz
      exact h.live j z hz

/-- A timer that runs no longer belongs to a group that has ended. -/
theorem Live.moved {entries : ℕ → Option (Item V)} {tokens : ℕ → Bool}
    {terminal : List (ℕ × Terminal)} {i : ℕ} {y y' : Timer K V}
    (h : Live entries tokens terminal i y) (he : y'.entry = y.entry)
    (hend : terminals terminal y.entry ≠ []) : Live entries tokens terminal i y' :=
  ⟨by rw [he]; exact h.1, .inr (by rw [he]; exact hend)⟩

theorem Live.rearmed {entries : ℕ → Option (Item V)} {tokens : ℕ → Bool}
    {terminal : List (ℕ × Terminal)} {i : ℕ} {y y' : Timer K V}
    (h : Live entries tokens terminal i y) (he : y'.entry = y.entry)
    (hg : y'.generation = y.generation) (hpc : y'.pc = .sleeping ∨ y'.pc = .locking) :
    Live entries tokens terminal i y' := by
  obtain ⟨hv, hlive⟩ := h
  refine ⟨by rwa [he], ?_⟩
  rcases hlive with ⟨-, htok, x, hx, hp, hg'⟩ | hend
  · exact .inl ⟨hpc, htok, x, by rwa [he], hp, hg'.trans hg.symm⟩
  · exact .inr (by rwa [he])

/-- A timer past its wait has ended its group. -/
theorem Live.ended {entries : ℕ → Option (Item V)} {tokens : ℕ → Bool}
    {terminal : List (ℕ × Terminal)} {i : ℕ} {y : Timer K V}
    (h : Live entries tokens terminal i y) (hs : y.pc ≠ .sleeping) (hl : y.pc ≠ .locking) :
    terminals terminal y.entry ≠ [] := by
  rcases h.2 with ⟨hpc | hpc, -⟩ | hend
  · exact absurd hpc hs
  · exact absurd hpc hl
  · exact hend

/-! ## Calls -/

theorem pushAt_ne_nil (values : List (List V)) (i : ℕ) (v : V) : pushAt values i v ≠ [] := by
  intro h
  have hlen := congrArg List.length h
  simp only [pushAt, List.length_modify, List.length_append, List.length_replicate,
    List.length_nil] at hlen
  omega

/-- A new group has no timer. -/
theorem ExpiryOk.create [DecidableEq K] (h : ExpiryOk s) (hg : GroupsOk s) (c : ℕ)
    (call : Call K V) : ExpiryOk (lookup.create s c call) := by
  have hnone : s.entries s.nextEntry = none := hg.fresh _ le_rfl
  refine ⟨h.fresh, h.tokens.update nofun, fun i y hy => (h.live i y hy).update ?_
    (List.Subset.refl _) (.inl rfl)⟩
  intro x hx
  rw [hnone] at hx
  cases hx

theorem ExpiryOk.lookup [DecidableEq K] (h : ExpiryOk s) (hg : GroupsOk s) (c : ℕ)
    (call : Call K V) : ExpiryOk (JoinStorage.lookup s c call) := by
  unfold JoinStorage.lookup
  split
  · split_ifs
    · exact h.create hg c call
    · exact h.setCall c call _
  · exact h.create hg c call

/-- **A value is accepted**: the first one may arm a timer, a later one keeps the generation. -/
theorem ExpiryOk.accept (h : ExpiryOk s) (c : ℕ) (call : Call K V) {e : ℕ} {x : Item V}
    (hx : s.entries e = some x) (hpr : x.processed = false) :
    ExpiryOk (JoinStorage.accept s c call e x) := by
  obtain ⟨x', pc, timers, n, heq, hv, hpr', hgen, -, ht⟩ := accept_eq s c call e x
  rw [heq]
  have hne : x'.values ≠ [] := hv ▸ pushAt_ne_nil _ _ _
  have hlive : ∀ i y, s.timers i = some y →
      Live (Function.update s.entries e (some x')) s.tokens s.terminal i y := by
    refine fun i y hy => (h.live i y hy).update (fun x₀ hx₀ hv₀ => ?_) (List.Subset.refl _) (.inl rfl)
    rw [hx, Option.some.injEq] at hx₀
    subst hx₀
    exact ⟨hne, hgen hv₀, .inl hpr'⟩
  cases ht with
  | keeps hexp =>
    exact ⟨h.fresh, h.tokens.update fun i hi => h.tokens e x i hx (hexp ▸ hi), hlive⟩
  | panics hexp =>
    have htok : TokensOk s.entries s.timers (s.nextTimer + 1) := fun e' x₀ i hx₀ hi =>
      ⟨Nat.lt_succ_of_lt (h.tokens e' x₀ i hx₀ hi).1, (h.tokens e' x₀ i hx₀ hi).2⟩
    refine ⟨fun i hi => h.fresh i (Nat.le_of_succ_le hi), htok.update fun i hi => ?_, hlive⟩
    rw [hexp, Option.some.injEq] at hi
    subst hi
    refine ⟨Nat.lt_succ_self _, fun y hy => ?_⟩
    rw [(h.fresh _ le_rfl).1] at hy
    cases hy
  | arms y hexp hpc hy hyg =>
    have htok : TokensOk s.entries (Function.update s.timers s.nextTimer (some y))
        (s.nextTimer + 1) := by
      intro e' x₀ i hx₀ hi
      obtain ⟨hlt, hent⟩ := h.tokens e' x₀ i hx₀ hi
      exact ⟨Nat.lt_succ_of_lt hlt, by rwa [Function.update_of_ne hlt.ne]⟩
    refine ⟨fun i hi => ?_, htok.update fun i hi => ?_, fun i z hz => ?_⟩
    · change s.nextTimer + 1 ≤ i at hi
      change Function.update s.timers s.nextTimer (some y) i = none ∧ _
      rw [Function.update_of_ne (by omega)]
      exact h.fresh i (by omega)
    · rw [hexp, Option.some.injEq] at hi
      subst hi
      refine ⟨Nat.lt_succ_self _, fun z hz => ?_⟩
      rw [Function.update_self, Option.some.injEq] at hz
      exact hz ▸ hy
    · change Function.update s.timers s.nextTimer (some y) i = some z at hz
      by_cases hi : i = s.nextTimer
      · subst hi
        rw [Function.update_self, Option.some.injEq] at hz
        subst hz
        have hent : Function.update s.entries e (some x') y.entry = some x' := by
          rw [hy, Function.update_self]
        have hval : valuesOf (Function.update s.entries e (some x') y.entry) ≠ [] := by
          rw [hent]
          exact hne
        exact ⟨hval, .inl ⟨.inl hpc, (h.fresh _ le_rfl).2, x', hent, hpr'.trans hpr, hyg.symm⟩⟩
      · rw [Function.update_of_ne hi] at hz
        exact hlive i z hz

/-- **`invoke` has returned**: only the completion of the group cancels its timer. -/
theorem ExpiryOk.invoked (h : ExpiryOk s) (c : ℕ) (call : Call K V) {e : ℕ} {x : Item V}
    (hx : s.entries e = some x) (hpr : x.processed = false) (result : Bool) :
    ExpiryOk (JoinStorage.invoked s c call e x result) := by
  unfold JoinStorage.invoked
  cases result with
  | false =>
    rw [if_neg Bool.false_ne_true]
    exact (h.setEntry hx { x with
      processed := false
      deadline := if call.renewTtl then some (s.clock + call.effectiveTtl) else x.deadline
      lock := none } (fun hv => ⟨hv, rfl, .inl hpr.symm⟩) (List.Subset.refl _)
      (.inl rfl)).setCall c call _
  | true =>
    rw [if_pos rfl]
    have hend : terminals (s.terminal ++ [(e, Terminal.completed c)]) e ≠ [] :=
      List.ne_nil_of_mem (mem_terminals.2 (List.mem_append_right _ (List.mem_singleton_self _)))
    have hdone := h.setEntry hx { x with processed := true, expiry := none, lock := none }
      (fun hv => ⟨hv, rfl, .inr hend⟩) (List.subset_append_left _ _) (.inr rfl)
    cases hexp : x.expiry with
    | none => exact hdone.setCall c call _
    | some i =>
      obtain ⟨hlt, hent⟩ := h.tokens e x i hx hexp
      refine ⟨fun j hj => ⟨(h.fresh j hj).1, ?_⟩, hdone.tokens, fun j y hy => ?_⟩
      · change s.nextTimer ≤ j at hj
        exact (Function.update_of_ne (by omega) _ _).trans (h.fresh j hj).2
      · obtain ⟨hv, hlive⟩ := hdone.live j y hy
        refine ⟨hv, ?_⟩
        by_cases hj : j = i
        · subst hj
          exact .inr (by rw [hent y hy]; exact hend)
        · refine hlive.imp_left fun ⟨hpc, htok, hx'⟩ => ⟨hpc, ?_, hx'⟩
          exact (Function.update_of_ne hj _ _).trans htok

/-! ## Timers -/

/-- **A timer has the lock of its group**: it goes back to sleep, or the group has ended. -/
theorem ExpiryOk.expire (h : ExpiryOk s) (deadlineOf : ℕ → Option ℕ) {i : ℕ}
    {y : Timer K V} (hy : s.timers i = some y) {x : Item V} (hx : s.entries y.entry = some x) :
    ExpiryOk (JoinStorage.expire deadlineOf s i y x) := by
  have hlive := h.live i y hy
  unfold JoinStorage.expire
  by_cases hstop : (x.processed || x.generation ≠ y.generation) = true
  · rw [if_pos hstop]
    refine h.setTimer hy rfl (hlive.moved rfl ?_)
    rcases hlive.2 with ⟨-, -, x₀, hx₀, hp₀, hg₀⟩ | hend
    · rw [hx, Option.some.injEq] at hx₀
      subst hx₀
      simp [hp₀, hg₀] at hstop
    · exact hend
  · rw [if_neg hstop]
    cases (if deadlineOf y.context = none then x.deadline.filter (s.clock < ·) else none) with
    | some renewed => exact h.setTimer hy rfl (hlive.rearmed rfl rfl (.inl rfl))
    | none =>
      have hend : terminals (s.terminal ++ [(y.entry, Terminal.expired i)]) y.entry ≠ [] :=
        List.ne_nil_of_mem (mem_terminals.2 (List.mem_append_right _ (List.mem_singleton_self _)))
      have hdone := h.setEntry hx { x with processed := true, expiry := none }
        (fun hv => ⟨hv, rfl, .inr hend⟩) (List.subset_append_left _ _) (.inr rfl)
      exact hdone.setTimer (y := y) hy rfl ((hdone.live i y hy).moved rfl hend)

/-! ## Every step -/

variable [DecidableEq K] {deadlineOf : ℕ → Option ℕ} {t : State K V} {a : Action K V}

theorem ExpiryOk.step (h : ExpiryOk s) (hg : GroupsOk s) (hs : step deadlineOf s a = some t) :
    ExpiryOk t := by
  cases a with
  | join c context key index value callback configuredTtl renewTtl =>
    simp only [JoinStorage.step] at hs
    cases hc : s.calls c <;> simp only [hc, reduceCtorEq, Option.some.injEq] at hs
    exact hs ▸ h.setCall c _ _
  | lookup c =>
    simp only [JoinStorage.step, Option.bind_eq_bind, Option.bind_eq_some_iff] at hs
    obtain ⟨call, hc, hs⟩ := hs
    cases hpc : call.pc <;> simp only [hpc, reduceCtorEq, Option.some.injEq] at hs
    exact hs ▸ h.lookup hg c call
  | lock c =>
    simp only [JoinStorage.step, Option.bind_eq_bind, Option.bind_eq_some_iff] at hs
    obtain ⟨call, hc, hs⟩ := hs
    cases hpc : call.pc <;> simp only [hpc, reduceCtorEq] at hs
    obtain ⟨x, hx, hs⟩ := Option.bind_eq_some_iff.1 hs
    split_ifs at hs with hl hend
    · rw [Option.some.injEq] at hs
      exact hs ▸ h.setCall c call _
    · simp only [Bool.or_eq_true, not_or, Bool.not_eq_true] at hend
      rw [Option.some.injEq] at hs
      exact hs ▸ h.accept c call hx hend.1
  | invoked c result =>
    simp only [JoinStorage.step, Option.bind_eq_bind, Option.bind_eq_some_iff] at hs
    obtain ⟨call, hc, hs⟩ := hs
    cases hpc : call.pc <;> simp only [hpc, reduceCtorEq] at hs
    obtain ⟨x, hx, hs⟩ := Option.bind_eq_some_iff.1 hs
    have hpr := (hg.invoking c call hc _ _ hpc).2.1
    rw [hx, processedOf_some] at hpr
    rw [Option.some.injEq] at hs
    exact hs ▸ h.invoked c call hx hpr result
  | remove c =>
    simp only [JoinStorage.step, Option.bind_eq_bind, Option.bind_eq_some_iff] at hs
    obtain ⟨call, hc, hs⟩ := hs
    cases hpc : call.pc <;> simp only [hpc, reduceCtorEq, Option.some.injEq] at hs
    exact hs ▸ ⟨h.fresh, h.tokens, h.live⟩
  | drop c =>
    simp only [JoinStorage.step, Option.bind_eq_bind, Option.bind_eq_some_iff] at hs
    obtain ⟨call, hc, hs⟩ := hs
    cases hpc : call.pc <;> simp only [hpc, reduceCtorEq] at hs
    case invoking e vals =>
      obtain ⟨x, hx, hs⟩ := Option.bind_eq_some_iff.1 hs
      rw [Option.some.injEq] at hs
      exact hs ▸ (h.setEntry hx { x with lock := none } (fun hv => ⟨hv, rfl, .inl rfl⟩)
        (List.Subset.refl _) (.inl rfl)).setCall c call _
    all_goals
      rw [Option.some.injEq] at hs
      exact hs ▸ h.setCall c call _
  | wake i =>
    simp only [JoinStorage.step, Option.bind_eq_bind, Option.bind_eq_some_iff] at hs
    obtain ⟨y, hy, hs⟩ := hs
    have hlive := h.live i y hy
    cases hpc : y.pc <;> simp only [hpc, reduceCtorEq] at hs
    split_ifs at hs with htok
    · rw [Option.some.injEq] at hs
      refine hs ▸ h.setTimer hy rfl (hlive.moved rfl ?_)
      rcases hlive.2 with ⟨-, htok', -⟩ | hend
      · rw [htok'] at htok
        cases htok
      · exact hend
    · rw [Option.some.injEq] at hs
      exact hs ▸ h.setTimer hy rfl (hlive.rearmed rfl rfl (.inr rfl))
  | expire i =>
    simp only [JoinStorage.step, Option.bind_eq_bind, Option.bind_eq_some_iff] at hs
    obtain ⟨y, hy, hs⟩ := hs
    cases hpc : y.pc <;> simp only [hpc, reduceCtorEq] at hs
    obtain ⟨x, hx, hs⟩ := Option.bind_eq_some_iff.1 hs
    split_ifs at hs with hl
    rw [Option.some.injEq] at hs
    exact hs ▸ h.expire deadlineOf hy hx
  | called i | callPanicked i =>
    simp only [JoinStorage.step, Option.bind_eq_bind, Option.bind_eq_some_iff] at hs
    obtain ⟨y, hy, hs⟩ := hs
    have hlive := h.live i y hy
    cases hpc : y.pc <;> simp only [hpc, reduceCtorEq, Option.some.injEq] at hs
    exact hs ▸ h.setTimer hy rfl (hlive.moved rfl (hlive.ended (by rw [hpc]; simp)
      (by rw [hpc]; simp)))
  | evict i =>
    simp only [JoinStorage.step, Option.bind_eq_bind, Option.bind_eq_some_iff] at hs
    obtain ⟨y, hy, hs⟩ := hs
    have hlive := h.live i y hy
    cases hpc : y.pc <;> simp only [hpc, reduceCtorEq, Option.some.injEq] at hs
    have hitems : ExpiryOk { s with items := removeIfSame s.items y.key y.entry } :=
      ⟨h.fresh, h.tokens, h.live⟩
    exact hs ▸ hitems.setTimer hy rfl (hlive.moved rfl (hlive.ended (by rw [hpc]; simp)
      (by rw [hpc]; simp)))
  | tick d | cancel context =>
    simp only [JoinStorage.step, Option.some.injEq] at hs
    exact hs ▸ ⟨h.fresh, h.tokens, h.live⟩

theorem expiryOk_reachable (h : (system K V deadlineOf).Reachable s) : ExpiryOk s :=
  (h.invariant (I := fun s => GroupsOk s ∧ ExpiryOk s) ⟨groupsOk_init, expiryOk_init⟩
    fun _ _ _ hi hs => ⟨hi.1.step hs, hi.2.step hi.1 hs⟩).2

/-! ## A timer stays -/

theorem step_timer (h : ExpiryOk s) (hs : step deadlineOf s a = some t) {i : ℕ} {y : Timer K V}
    (hy : s.timers i = some y) : ∃ y', t.timers i = some y' ∧ y'.entry = y.entry := by
  have hset : ∀ j z z', s.timers j = some z → z'.entry = z.entry →
      ∃ y', Function.update s.timers j (some z') i = some y' ∧ y'.entry = y.entry := by
    intro j z z' hz hent
    by_cases hij : i = j
    · subst hij
      rw [hy, Option.some.injEq] at hz
      exact ⟨z', Function.update_self .., by rw [hent, hz]⟩
    · exact ⟨y, by rw [Function.update_of_ne hij, hy], rfl⟩
  cases a with
  | join c =>
    simp only [step] at hs
    cases hc : s.calls c <;> simp only [hc, reduceCtorEq, Option.some.injEq] at hs
    exact hs ▸ ⟨y, hy, rfl⟩
  | lookup c =>
    simp only [step, Option.bind_eq_bind, Option.bind_eq_some_iff] at hs
    obtain ⟨call, hc, hs⟩ := hs
    cases hpc : call.pc <;> simp only [hpc, reduceCtorEq, Option.some.injEq] at hs
    refine hs ▸ ⟨y, ?_, rfl⟩
    rw [lookup]
    split
    · split_ifs <;> exact hy
    · exact hy
  | lock c =>
    simp only [step, Option.bind_eq_bind, Option.bind_eq_some_iff] at hs
    obtain ⟨call, hc, hs⟩ := hs
    cases hpc : call.pc <;> simp only [hpc, reduceCtorEq] at hs
    obtain ⟨x, hx, hs⟩ := Option.bind_eq_some_iff.1 hs
    split_ifs at hs with hl hend
    · rw [Option.some.injEq] at hs
      exact hs ▸ ⟨y, hy, rfl⟩
    · obtain ⟨x', pc, timers, n, heq, -, -, -, -, ht⟩ := accept_eq s c call _ x
      rw [heq, Option.some.injEq] at hs
      refine hs ▸ ⟨y, ?_, rfl⟩
      cases ht with
      | keeps | panics => exact hy
      | arms z =>
        refine (Function.update_of_ne ?_ _ _).trans hy
        rintro rfl
        rw [(h.fresh _ le_rfl).1] at hy
        cases hy
  | invoked c result =>
    simp only [step, Option.bind_eq_bind, Option.bind_eq_some_iff] at hs
    obtain ⟨call, hc, hs⟩ := hs
    cases hpc : call.pc <;> simp only [hpc, reduceCtorEq] at hs
    obtain ⟨x, hx, hs⟩ := Option.bind_eq_some_iff.1 hs
    rw [Option.some.injEq] at hs
    cases result <;> exact hs ▸ ⟨y, hy, rfl⟩
  | remove c =>
    simp only [step, Option.bind_eq_bind, Option.bind_eq_some_iff] at hs
    obtain ⟨call, hc, hs⟩ := hs
    cases hpc : call.pc <;> simp only [hpc, reduceCtorEq, Option.some.injEq] at hs
    exact hs ▸ ⟨y, hy, rfl⟩
  | drop c =>
    simp only [step, Option.bind_eq_bind, Option.bind_eq_some_iff] at hs
    obtain ⟨call, hc, hs⟩ := hs
    cases hpc : call.pc <;> simp only [hpc, reduceCtorEq] at hs
    case invoking e vals =>
      obtain ⟨x, hx, hs⟩ := Option.bind_eq_some_iff.1 hs
      rw [Option.some.injEq] at hs
      exact hs ▸ ⟨y, hy, rfl⟩
    all_goals
      rw [Option.some.injEq] at hs
      exact hs ▸ ⟨y, hy, rfl⟩
  | wake j =>
    simp only [step, Option.bind_eq_bind, Option.bind_eq_some_iff] at hs
    obtain ⟨z, hz, hs⟩ := hs
    cases hpc : z.pc <;> simp only [hpc, reduceCtorEq] at hs
    split_ifs at hs <;> rw [Option.some.injEq] at hs <;> exact hs ▸ hset j z _ hz rfl
  | expire j =>
    simp only [step, Option.bind_eq_bind, Option.bind_eq_some_iff] at hs
    obtain ⟨z, hz, hs⟩ := hs
    cases hpc : z.pc <;> simp only [hpc, reduceCtorEq] at hs
    obtain ⟨x, hx, hs⟩ := Option.bind_eq_some_iff.1 hs
    split_ifs at hs with hl
    rw [Option.some.injEq, expire] at hs
    split_ifs at hs
    · exact hs ▸ hset j z _ hz rfl
    all_goals
      split at hs
      · exact hs ▸ hset j z _ hz rfl
      · exact hs ▸ hset j z _ hz rfl
  | called j | callPanicked j | evict j =>
    simp only [step, Option.bind_eq_bind, Option.bind_eq_some_iff] at hs
    obtain ⟨z, hz, hs⟩ := hs
    cases hpc : z.pc <;> simp only [hpc, reduceCtorEq, Option.some.injEq] at hs
    exact hs ▸ hset j z _ hz rfl
  | tick d | cancel context =>
    simp only [step, Option.some.injEq] at hs
    exact hs ▸ ⟨y, hy, rfl⟩

/-- **A timer is armed until its group ends**, in every continuation. -/
theorem armed_until_ended (h : (system K V deadlineOf).Reachable s) {i : ℕ} {y : Timer K V}
    (hy : s.timers i = some y) {as : List (Action K V)}
    (hr : (system K V deadlineOf).run s as = some t) :
    terminals t.terminal y.entry ≠ [] ∨
      ∃ y', t.timers i = some y' ∧ y'.entry = y.entry ∧ Armed t.entries t.tokens i y' := by
  induction as generalizing s y with
  | nil =>
    simp only [System.run, Option.some.injEq] at hr
    subst hr
    rcases ((expiryOk_reachable h).live i y hy).2 with harmed | hend
    · exact .inr ⟨y, hy, rfl, harmed⟩
    · exact .inl hend
  | cons b as ih =>
    simp only [System.run, Option.bind_eq_some_iff] at hr
    obtain ⟨u, hu, hr⟩ := hr
    obtain ⟨y', hy', hent⟩ := step_timer (expiryOk_reachable h) hu hy
    rw [← hent]
    exact ih (h.next hu) hy' hr

/-! ## A timer delivers -/

/-- The `invoke` that runs for a group, if there is one, may end without completing the group. -/
theorem run_unlocked (deadlineOf : ℕ → Option ℕ) (hg : GroupsOk s) {i : ℕ} {y : Timer K V}
    (hy : s.timers i = some y) (harmed : Armed s.entries s.tokens i y) :
    ∃ as u x, (system K V deadlineOf).run s as = some u ∧ u.timers i = some y ∧
      Armed u.entries u.tokens i y ∧ u.entries y.entry = some x ∧ x.lock = none ∧
      x.values = valuesOf (s.entries y.entry) := by
  obtain ⟨hpc, htok, x, hx, hp, hgen⟩ := harmed
  cases hl : x.lock with
  | none => exact ⟨[], s, x, rfl, hy, ⟨hpc, htok, x, hx, hp, hgen⟩, hx, hl, by rw [hx]; rfl⟩
  | some c =>
    obtain ⟨call, vals, hc, hcpc⟩ := hg.locked y.entry c (by rw [hx]; exact hl)
    have hstep : step deadlineOf s (.invoked c false) =
        some (invoked s c call y.entry x false) := by
      simp only [step, hc, Option.bind_eq_bind, Option.bind_some, hcpc, hx]
    have hent : (invoked s c call y.entry x false).entries y.entry = some { x with
        processed := false
        deadline := if call.renewTtl then some (s.clock + call.effectiveTtl) else x.deadline
        lock := none } := Function.update_self ..
    refine ⟨[.invoked c false], _, _, System.run_singleton hstep, hy, ⟨hpc, htok, _, hent, rfl,
      hgen⟩, hent, rfl, by rw [hx]; rfl⟩

/-- After its time, and with the lock of its group free, a timer starts the expiry callback. -/
theorem run_expired (deadlineOf : ℕ → Option ℕ) {i : ℕ} {y : Timer K V}
    (hy : s.timers i = some y) (harmed : Armed s.entries s.tokens i y) {x : Item V} (hx : s.entries y.entry = some x)
    (hl : x.lock = none) :
    ∃ as u, (system K V deadlineOf).run s as = some u ∧ Running u y.entry x.values (.expiry i) := by
  obtain ⟨hpc, htok, x₀, hx₀, hp, hgen⟩ := harmed
  rw [hx, Option.some.injEq] at hx₀
  subst hx₀
  set d := y.deadline + x.deadline.getD 0 + (deadlineOf y.context).getD 0
  set s' : State K V := { s with clock := s.clock + d }
  have htick : (system K V deadlineOf).run s [.tick d] = some s' := System.run_singleton rfl
  -- the timer has the lock and the time of every deadline has come
  have hexpire : ∀ u : State K V, u.clock = s.clock + d → u.entries = s.entries →
      ∀ z : Timer K V, u.timers i = some { y with pc := .locking } →
      ∃ u', (system K V deadlineOf).step u (.expire i) = some u' ∧
        Running u' y.entry x.values (.expiry i) := by
    intro u hclock hent z hz
    have hdl : (if deadlineOf y.context = none then x.deadline.filter (u.clock < ·) else none) =
        none := by
      split_ifs
      · cases hxd : x.deadline with
        | none => rfl
        | some deadline =>
          have hle : ¬ u.clock < deadline := by
            rw [hclock]
            simp only [d, hxd, Option.getD_some]
            omega
          simp [Option.filter, hle]
      · rfl
    refine ⟨expire deadlineOf u i { y with pc := .locking } x, ?_, ?_⟩
    · simp only [system, step, hz, Option.bind_eq_bind, Option.bind_some, hent, hx, hl, if_true]
    · simp only [expire, hp, hgen, hdl, Bool.false_or, ne_eq, not_true_eq_false, decide_false,
        Bool.false_eq_true, if_false]
      exact ⟨_, _, _, Function.update_self .., rfl, rfl⟩
  have hy' : s'.timers i = some y := hy
  rcases hpc with hpc | hpc
  · have hdue : due deadlineOf s' y = true := by
      rw [due]
      cases hd : deadlineOf y.context with
      | none =>
        rw [decide_eq_true_eq]
        change y.deadline ≤ s.clock + d
        omega
      | some deadline =>
        rw [Bool.or_eq_true, decide_eq_true_eq]
        refine .inr ?_
        change deadline ≤ s.clock + d
        simp only [d, hd, Option.getD_some]
        omega
    have htok' : s'.tokens i = false := htok
    have hwake : (system K V deadlineOf).step s' (.wake i) =
        some (s'.setTimer i { y with pc := .locking }) := by
      simp only [system, step, hy', Option.bind_eq_bind, Option.bind_some, hpc, htok', hdue, if_true,
        Bool.false_eq_true, if_false]
    obtain ⟨u, hu, hrun⟩ := hexpire (s'.setTimer i { y with pc := .locking }) rfl rfl y
      (Function.update_self ..)
    exact ⟨[.tick d] ++ ([.wake i] ++ [.expire i]), u, System.run_trans htick
      (System.run_trans (System.run_singleton hwake) (System.run_singleton hu)), hrun⟩
  · have hsame : ({ y with pc := .locking } : Timer K V) = y := by rw [← hpc]
    obtain ⟨u, hu, hrun⟩ := hexpire s' rfl rfl y (by rw [hsame]; exact hy)
    exact ⟨[.tick d] ++ [.expire i], u, System.run_trans htick (System.run_singleton hu), hrun⟩

/-! ## Main result -/

/-- **Values of a group with a timer are not lost.** When a group leaves the map while it holds
values and has not ended, and an expiry timer was started for it, that timer is armed; it stays
armed in every continuation until the group ends; and some continuation gives all the values of the
group to the expiry callback. -/
theorem expiry_timer_kept (h : (system K V deadlineOf).Reachable s)
    (hs : step deadlineOf s a = some t) (k : K) (e : ℕ) :
    s.items.lookup k = some e → t.items.lookup k ≠ some e → valuesOf (t.entries e) ≠ [] →
    terminals t.terminal e = [] → ∀ i y, t.timers i = some y → y.entry = e →
    Armed t.entries t.tokens i y ∧
    (∀ as u, (system K V deadlineOf).run t as = some u → terminals u.terminal e ≠ [] ∨
      ∃ y', u.timers i = some y' ∧ y'.entry = e ∧ Armed u.entries u.tokens i y') ∧
    ∃ as u, (system K V deadlineOf).run t as = some u ∧
      Running u e (valuesOf (t.entries e)) (.expiry i) := by
  rintro - - - hopen i y hy rfl
  have ht := h.next hs
  have harmed : Armed t.entries t.tokens i y :=
    ((expiryOk_reachable ht).live i y hy).2.resolve_right fun hend => hend hopen
  refine ⟨harmed, fun as u hr => armed_until_ended ht hy hr, ?_⟩
  obtain ⟨as, u, x, hr, hyu, harmed', hx, hl, hv⟩ :=
    run_unlocked deadlineOf (groupsOk_reachable ht) hy harmed
  obtain ⟨bs, w, hr', hrun⟩ := run_expired deadlineOf hyu harmed' hx hl
  exact ⟨as ++ bs, w, System.run_trans hr hr', hv ▸ hrun⟩

/-- A group with a timer is replaced after its deadline, before the timer is scheduled. -/
def replacedBeforeExpiry : List (Action ℕ ℕ) :=
  [.join 0 0 7 0 10 0 5 false, .lookup 0, .lock 0, .invoked 0 false, .tick 5,
    .join 1 1 7 1 20 1 5 false]

theorem replacedBeforeExpiry_runs :
    ((system ℕ ℕ fun _ => none).run .init replacedBeforeExpiry).isSome := by
  decide +kernel

theorem replacedBeforeExpiry_lookup :
    (step (fun _ => none) (((system ℕ ℕ fun _ => none).run .init replacedBeforeExpiry).get
      replacedBeforeExpiry_runs) (.lookup 1)).isSome := by
  decide +kernel

theorem expiry_timer_kept_replacedBeforeExpiry :
    ∃ s t, (system ℕ ℕ fun _ => none).Reachable s ∧
      step (fun _ => none) s (.lookup 1) = some t ∧ s.items.lookup 7 = some 0 ∧
      t.items.lookup 7 = some 1 ∧
      ∃ as u, (system ℕ ℕ fun _ => none).run t as = some u ∧ Running u 0 [[10]] (.expiry 0) := by
  have h := System.reachable_get replacedBeforeExpiry_runs
  set s := ((system ℕ ℕ fun _ => none).run .init replacedBeforeExpiry).get
    replacedBeforeExpiry_runs
  set t := (step (fun _ => none) s (.lookup 1)).get replacedBeforeExpiry_lookup
  have hs : step (fun _ => none) s (.lookup 1) = some t := (Option.some_get _).symm
  have h₀ : s.items.lookup 7 = some 0 := by decide +kernel
  have h₁ : t.items.lookup 7 = some 1 := by decide +kernel
  obtain ⟨-, -, hrun⟩ := expiry_timer_kept h hs 7 0 h₀ (by rw [h₁]; decide) (by decide +kernel)
    (by decide +kernel) 0 _ rfl rfl
  exact ⟨s, t, h, hs, h₀, h₁, hrun⟩

/-- The first value comes with no TTL; a second call renews the deadline; after that deadline a
third call looks the key up. -/
def untimed : List (Action ℕ ℕ) :=
  [.join 0 0 7 0 10 0 0 false, .lookup 0, .lock 0, .invoked 0 false,
    .join 1 1 7 1 20 1 5 true, .lookup 1, .lock 1, .invoked 1 false, .tick 5,
    .join 2 2 7 0 30 2 5 true]

theorem untimed_runs : ((system ℕ ℕ fun _ => none).run .init untimed).isSome := by
  decide +kernel

theorem untimed_lookup :
    (step (fun _ => none) (((system ℕ ℕ fun _ => none).run .init untimed).get untimed_runs)
      (.lookup 2)).isSome := by
  decide +kernel

/-- **A group without a timer is replaced** although it holds two values and has not ended: a
renewal moves the deadline that admission reads and creates no timer. -/
theorem untimed_group_replaced :
    ∃ s t, (system ℕ ℕ fun _ => none).Reachable s ∧
      step (fun _ => none) s (.lookup 2) = some t ∧ s.items.lookup 7 = some 0 ∧
      t.items.lookup 7 = some 1 ∧ valuesOf (t.entries 0) = [[10], [20]] ∧
      terminals t.terminal 0 = [] ∧ ∀ i, t.timers i = none := by
  have h := System.reachable_get untimed_runs
  set s := ((system ℕ ℕ fun _ => none).run .init untimed).get untimed_runs
  set t := (step (fun _ => none) s (.lookup 2)).get untimed_lookup
  have hs : step (fun _ => none) s (.lookup 2) = some t := (Option.some_get _).symm
  have ht : (system ℕ ℕ fun _ => none).Reachable t := h.next (a := .lookup 2) hs
  have hnext : t.nextTimer = 0 := by decide +kernel
  refine ⟨s, t, h, hs, by decide +kernel, by decide +kernel, by decide +kernel, by decide +kernel,
    fun i => ?_⟩
  exact ((expiryOk_reachable ht).fresh i (by rw [hnext]; exact Nat.zero_le i)).1

end JoinStorage

end ServiceLib
