import ServiceLib.Kafka.Checkpoint
import ServiceLib.While

/-!
# Assignments from a checkpoint are all or nothing

`assignment_atomicity`: with a checkpoint to restore, a native assignment is made only after every
listed partition has passed every check and carries its checkpoint offset. When a check or a native
call of a callback fails, the callback ends with `unassign`, with every context cancelled, and from
`fail` on no acknowledgement is applied, in any interleaving. `take_error` returns the first error.

Three facts carry this. `Checked` says what is known of a list when the lock is about to be taken.
`Failing` follows one failing callback to its end: the counter of callbacks tells its own end from
that of a later one. `Refusing` is kept by every step, so it covers acknowledgements that race with
`fail` and all later ones.
-/

namespace ServiceLib

namespace Kafka

open State

/-! ## What critical sections leave alone -/

/-- The fields that assignments and revocations only touch on purpose. -/
structure Beside (s t : State) : Prop where
  native : t.native = s.native
  error : t.error = s.error
  failed : t.failed = s.failed
  ownerCancelled : t.ownerCancelled = s.ownerCancelled
  recorded : t.recorded = s.recorded
  taken : t.taken = s.taken

theorem Beside.refl (s : State) : Beside s s := ⟨rfl, rfl, rfl, rfl, rfl, rfl⟩

theorem Beside.trans {s t u : State} (h : Beside s t) (h' : Beside t u) : Beside s u :=
  ⟨h'.native.trans h.native, h'.error.trans h.error, h'.failed.trans h.failed,
    h'.ownerCancelled.trans h.ownerCancelled, h'.recorded.trans h.recorded, h'.taken.trans h.taken⟩

theorem removePartition_beside (s : State) (p : ℤ) : Beside s (s.removePartition p) := by
  unfold removePartition
  split <;> exact ⟨rfl, rfl, rfl, rfl, rfl, rfl⟩

theorem removePartitions_beside (s : State) (list : List ℤ) :
    Beside s (s.removePartitions list) := by
  induction list generalizing s with
  | nil => exact Beside.refl s
  | cons p list ih => exact (removePartition_beside s p).trans (ih _)

theorem takeAway_beside (s : State) (cooperative : Bool) (list : List Item) :
    Beside s (s.takeAway cooperative list) := by
  cases cooperative with
  | true => exact removePartitions_beside s (listed list)
  | false =>
    have hclear : Beside s s.clear := ⟨rfl, rfl, rfl, rfl, rfl, rfl⟩
    exact hclear.trans (removePartitions_beside s.clear (listed list))

theorem insertPartitions_beside (s : State) (generation : ℕ) (list : List ℤ) :
    Beside s (s.insertPartitions generation list).1 := by
  have key : ∀ (r : State × List (ℤ × ℕ)),
      Beside r.1 (list.foldl (insertPartition generation) r).1 := by
    induction list with
    | nil => exact fun r => Beside.refl r.1
    | cons p list ih =>
      intro r
      have hone : Beside r.1 (insertPartition generation r p).1 := ⟨rfl, rfl, rfl, rfl, rfl, rfl⟩
      exact hone.trans (ih _)
  exact key (s, [])

/-- What the locked part of a callback does: one native call, whose error the callback fails with. -/
structure Locked (answers : Answers) (call : Native) (s t : State) : Prop where
  native : t.native = call :: s.native
  error : t.error = s.error
  failed : t.failed = s.failed
  recorded : t.recorded = s.recorded
  taken : t.taken = s.taken
  fails : ∀ e, answers.native = .error e → t.callback = .failing e
  ends : answers.native = .ok () → t.callback = .idle

theorem assignLocked_locked (s : State) (answers : Answers) (list : List Item) :
    Locked answers (if answers.cooperative then .incrementalAssign list else .assign list) s
      (s.assignLocked answers list) := by
  have hb := takeAway_beside s answers.cooperative list
  unfold assignLocked
  cases hn : answers.native with
  | error e =>
    exact ⟨congrArg _ hb.native, hb.error, hb.failed, hb.recorded, hb.taken,
      fun e' he => (by rw [hn] at he; cases he; rfl), fun he => (by rw [hn] at he; cases he)⟩
  | ok u =>
    have hi := insertPartitions_beside { s.takeAway answers.cooperative list with
      native := (if answers.cooperative then .incrementalAssign list else .assign list) ::
        (s.takeAway answers.cooperative list).native
      revision := bump (s.takeAway answers.cooperative list).revision }
      (bump (s.takeAway answers.cooperative list).revision) (listed list)
    exact ⟨hi.native.trans (congrArg _ hb.native), hi.error.trans hb.error,
      hi.failed.trans hb.failed, hi.recorded.trans hb.recorded, hi.taken.trans hb.taken,
      fun e' he => (by rw [hn] at he; cases he), fun _ => rfl⟩

theorem revokeLocked_locked (s : State) (answers : Answers) (list : List Item) :
    Locked answers (if answers.cooperative then .incrementalUnassign list else .unassign) s
      (s.revokeLocked answers list) := by
  have hb : Beside s
      (if answers.cooperative then s.removePartitions (listed list) else s.clear) := by
    split_ifs
    · exact removePartitions_beside s (listed list)
    · exact ⟨rfl, rfl, rfl, rfl, rfl, rfl⟩
  unfold revokeLocked
  cases hn : answers.native with
  | error e =>
    exact ⟨congrArg _ hb.native, hb.error, hb.failed, hb.recorded, hb.taken,
      fun e' he => (by rw [hn] at he; cases he; rfl), fun he => (by rw [hn] at he; cases he)⟩
  | ok u =>
    exact ⟨congrArg _ hb.native, hb.error, hb.failed, hb.recorded, hb.taken,
      fun e' he => (by rw [hn] at he; cases he), fun _ => rfl⟩

/-! ## The checks -/

/-- A loop that succeeds has succeeded on every element. -/
theorem mapM_forall₂ {ε α β : Type} {f : α → Except ε β} {l : List α} {r : List β}
    (h : l.mapM f = .ok r) : List.Forall₂ (fun a b => f a = .ok b) l r := by
  induction l generalizing r with
  | nil =>
    cases h
    exact .nil
  | cons a l ih =>
    rw [List.mapM_cons] at h
    obtain ⟨b, hb, h⟩ := except_bind_eq_ok.1 h
    obtain ⟨bs, hbs, h⟩ := except_bind_eq_ok.1 h
    cases h
    exact .cons hb (ih hbs)

/-- An item that has passed every check, with its checkpoint offset set on it. -/
def Covered (answers : Answers) (offsets : CheckpointOffsets) (item : Item) : Prop :=
  ∃ next low high, offsets.lookup item.partition = some next ∧
    answers.fetchWatermarks item.topic item.partition = .ok (low, high) ∧
    low ≤ next ∧ next ≤ high ∧ answers.setOffset item.partition = .ok () ∧
    item.offset = some next

theorem checkItem_eq_ok {cfg : Config} {answers : Answers} {offsets : Option CheckpointOffsets}
    {item item' : Item} (h : checkItem cfg answers offsets item = .ok item') :
    item'.topic = item.topic ∧ item'.partition = item.partition ∧ item.topic = cfg.topic ∧
      ∀ o, offsets = some o → Covered answers o item' := by
  unfold checkItem at h
  by_cases ht : item.topic = cfg.topic
  · rw [if_neg (not_not.2 ht)] at h
    cases offsets with
    | none =>
      cases h
      exact ⟨rfl, rfl, ht, nofun⟩
    | some o =>
      cases hl : o.lookup item.partition with
      | none =>
        simp only [hl] at h
        cases h
      | some next =>
        simp only [hl] at h
        obtain ⟨-, -, h⟩ := except_bind_eq_ok.1 h
        obtain ⟨⟨low, high⟩, hw, h⟩ := except_bind_eq_ok.1 h
        dsimp only at h
        by_cases hr : low < 0 ∨ next < low ∨ next > high
        · rw [if_pos hr] at h
          cases h
        · rw [if_neg hr] at h
          obtain ⟨⟨⟩, hset, h⟩ := except_bind_eq_ok.1 h
          cases h
          simp only [not_or, not_lt, gt_iff_lt] at hr
          refine ⟨rfl, rfl, ht, fun o' ho => ?_⟩
          cases ho
          exact ⟨next, low, high, hl, hw, hr.2.1, hr.2.2, hset, rfl⟩
  · rw [if_pos ht] at h
    cases h

/-- The loop changes the offsets of a list, and has checked every item. -/
theorem mapM_checkItem {cfg : Config} {answers : Answers} {offsets : Option CheckpointOffsets}
    {list list' : List Item} (h : list.mapM (checkItem cfg answers offsets) = .ok list') :
    (∀ item ∈ list', item.topic = cfg.topic ∧ ∀ o, offsets = some o → Covered answers o item) ∧
      list'.map (fun i => (i.topic, i.partition)) = list.map (fun i => (i.topic, i.partition)) := by
  have hall := mapM_forall₂ h
  clear h
  induction hall with
  | nil => exact ⟨nofun, rfl⟩
  | cons hok _ ih =>
    obtain ⟨htopic, hpart, hcfg, hcov⟩ := checkItem_eq_ok hok
    refine ⟨List.forall_mem_cons.2 ⟨⟨htopic.trans hcfg, hcov⟩, ih.1⟩, ?_⟩
    rw [List.map_cons, List.map_cons, ih.2, htopic, hpart]

/-- What is known of a list that is about to be assigned. -/
def Checked (cfg : Config) (answers : Answers) (list : List Item) : Prop :=
  ∃ offsets, answers.restore = .ok offsets ∧ offsets.isSome = cfg.restoring ∧
    ∀ item ∈ list, item.topic = cfg.topic ∧ ∀ o, offsets = some o → Covered answers o item

theorem checkAssignment_eq_ok {cfg : Config} {answers : Answers} {s : State}
    {list list' : List Item} (h : checkAssignment cfg answers s list = .ok list') :
    Checked cfg answers list' ∧
      list'.map (fun i => (i.topic, i.partition)) = list.map (fun i => (i.topic, i.partition)) := by
  unfold checkAssignment at h
  by_cases hcancelled : (s.ownerCancelled || s.failed) = true
  · rw [if_pos hcancelled] at h
    cases h
  rw [if_neg hcancelled] at h
  obtain ⟨offsets, hrestore, h⟩ := except_bind_eq_ok.1 h
  obtain ⟨-, -, h⟩ := except_bind_eq_ok.1 h
  dsimp only at h
  by_cases hmode : offsets.isSome = cfg.restoring
  · rw [if_neg (not_not.2 hmode)] at h
    obtain ⟨hall, hsame⟩ := mapM_checkItem h
    exact ⟨⟨offsets, hrestore, hmode, hall⟩, hsame⟩
  · rw [if_pos hmode] at h
    cases h

variable {cfg : Config} {s t : State} {a : Action}

/-- **A list is checked before it is assigned.** -/
theorem checked_reachable (h : (assignments cfg).Reachable s) {answers : Answers}
    {list : List Item} (hc : s.callback = .assigning answers list) : Checked cfg answers list := by
  refine h.invariant (I := fun s => ∀ answers list, s.callback = .assigning answers list →
    Checked cfg answers list) (fun _ _ hc => by cases hc) ?_ answers list hc
  intro s a t ih hs answers list hc
  unfold assignments at hs
  dsimp only at hs
  unfold step at hs
  cases a with
  | assign answers' list' =>
    cases hcb : s.callback <;> simp only [hcb, reduceCtorEq] at hs
    split at hs <;> cases hs
    · rename_i hok
      cases hc
      exact (checkAssignment_eq_ok hok).1
    · cases hc
  | assignLocked =>
    cases hcb : s.callback <;> simp only [hcb, reduceCtorEq] at hs
    rename_i answers' list'
    split_ifs at hs <;> cases hs
    · cases hc
    · have hl := assignLocked_locked s answers' list'
      cases hn : answers'.native with
      | error e => rw [hl.fails e hn] at hc; cases hc
      | ok u => rw [hl.ends hn] at hc; cases hc
  | revoke answers' list' =>
    cases hcb : s.callback <;> simp only [hcb, reduceCtorEq] at hs
    cases hs
    have hl := revokeLocked_locked { s with callback := .idle, rebalances := s.rebalances + 1 }
      answers' list'
    cases hn : answers'.native with
    | error e => rw [hl.fails e hn] at hc; cases hc
    | ok u => rw [hl.ends hn] at hc; cases hc
  | other | fail | failToken | unassign =>
    cases hcb : s.callback <;> simp only [hcb, reduceCtorEq] at hs
    cases hs
    cases hc
  | takeError =>
    simp only at hs
    split at hs <;> cases hs
    exact ih answers list hc
  | cancelOwner =>
    cases hs
    exact ih answers list hc
  | cancelContext =>
    simp only at hs
    split_ifs at hs
    cases hs
    exact ih answers list hc

/-! ## One failing callback -/

/-- The error with which a callback fails in a step: a check, or its native call. -/
def failure (cfg : Config) (s : State) : Action → Option HandlerError
  | .assign answers list =>
    match checkAssignment cfg answers s list with
    | .error e => some e
    | .ok _ => none
  | .assignLocked =>
    match s.callback with
    | .assigning answers _ =>
      if s.ownerCancelled then some "Kafka checkpoint restoration cancelled"
      else match answers.native with
        | .error e => some e
        | .ok () => none
    | _ => none
  | .revoke answers _ =>
    match answers.native with
    | .error e => some e
    | .ok () => none
  | .other event => some ("Kafka rebalance failed: " ++ event)
  | _ => none

theorem step_failure (hs : step cfg s a = some t) {e : HandlerError}
    (hf : failure cfg s a = some e) : t.callback = .failing e := by
  unfold step at hs
  cases a with
  | assign answers list =>
    cases hcb : s.callback <;> simp only [hcb, reduceCtorEq] at hs
    have hsame : checkAssignment cfg answers { s with rebalances := s.rebalances + 1 } list =
        checkAssignment cfg answers s list := rfl
    simp only [failure] at hf
    split at hf
    · rename_i e' he
      rw [Option.some.injEq] at hf
      rw [← hcb] at hs
      simp only [hsame, he, Option.some.injEq] at hs
      rw [← hs, hf]
    · cases hf
  | assignLocked =>
    cases hcb : s.callback <;> simp only [hcb, reduceCtorEq] at hs
    rename_i answers list
    simp only [failure, hcb] at hf
    split_ifs at hs hf with hc
    · cases hs
      cases hf
      rfl
    · have hl := assignLocked_locked s answers list
      cases hs
      split at hf <;> cases hf
      rename_i hn
      exact hl.fails _ hn
  | revoke answers list =>
    cases hcb : s.callback <;> simp only [hcb, reduceCtorEq] at hs
    have hl := revokeLocked_locked { s with callback := .idle, rebalances := s.rebalances + 1 }
      answers list
    cases hs
    simp only [failure] at hf
    split at hf <;> cases hf
    rename_i hn
    exact hl.fails _ hn
  | other event =>
    cases hcb : s.callback <;> simp only [hcb, reduceCtorEq] at hs
    cases hs
    cases hf
    rfl
  | fail | failToken | unassign | takeError | cancelOwner | cancelContext => cases hf

/-- Every context that a partition holds is cancelled. -/
def AllCancelled (s : State) : Prop :=
  ∀ p g c, s.partitions.lookup p = some (g, c) → s.isCancelled c = true

/-- A callback that failed with `e` in state `s` has got this far, or it is over and another one has
been started. -/
def Failing (s : State) (e : HandlerError) (t : State) : Prop :=
  s.rebalances < t.rebalances ∨ t.rebalances = s.rebalances ∧
    match t.callback with
    | .failing e' => e' = e ∧ t.native = s.native
    | .cancelling => t.native = s.native ∧ e ∈ t.recorded ∧ AllCancelled t
    | .cleanup => t.native = s.native ∧ e ∈ t.recorded ∧ AllCancelled t ∧ t.failed = true
    | .idle => t.native = .unassign :: s.native ∧ e ∈ t.recorded ∧ AllCancelled t ∧ t.failed = true
    | .assigning _ _ => False

theorem AllCancelled.mono (h : AllCancelled s) (hp : t.partitions = s.partitions)
    (hc : ∀ c, s.isCancelled c = true → t.isCancelled c = true) : AllCancelled t :=
  fun p g c hl => hc c (h p g c (hp ▸ hl))

theorem allCancelled_cancelAll (s : State) : AllCancelled s.cancelAll := by
  intro p g c hl
  rw [isCancelled, Bool.or_eq_true]
  exact .inr (tokens_cancelAll.2 (.inr ⟨p, g, hl⟩))

/-- A step that only cancels contexts, or takes the error, leaves the callback where it is. -/
theorem Failing.beside {e : HandlerError} {u : State} (h : Failing s e t)
    (hreb : u.rebalances = t.rebalances) (hcb : u.callback = t.callback)
    (hnat : u.native = t.native) (hrec : u.recorded = t.recorded) (hfail : u.failed = t.failed)
    (hpart : u.partitions = t.partitions)
    (hcan : ∀ c, t.isCancelled c = true → u.isCancelled c = true) : Failing s e u := by
  rcases h with h | ⟨hr, hst⟩
  · exact .inl (hreb ▸ h)
  · refine .inr ⟨hreb.trans hr, ?_⟩
    rw [hcb, hnat, hrec, hfail]
    cases hc : t.callback <;> simp only [hc] at hst ⊢
    · exact ⟨hst.1, hst.2.1, hst.2.2.1.mono hpart hcan, hst.2.2.2⟩
    · exact hst
    · exact ⟨hst.1, hst.2.1, hst.2.2.mono hpart hcan⟩
    · exact ⟨hst.1, hst.2.1, hst.2.2.1.mono hpart hcan, hst.2.2.2⟩

theorem Failing.step {e : HandlerError} {u : State} (h : Failing s e t)
    (hs : step cfg t a = some u) : Failing s e u := by
  have hmono := rebalances_step hs
  rcases h with hlt | ⟨hreb, hst⟩
  · exact .inl (hlt.trans_le hmono)
  have h : Failing s e t := .inr ⟨hreb, hst⟩
  unfold Kafka.step at hs
  cases a with
  | assign answers list | other event =>
    cases hcb : t.callback <;> simp only [hcb, reduceCtorEq] at hs
    refine .inl ?_
    first
      | (split at hs <;> cases hs <;> exact hreb ▸ Nat.lt_succ_self _)
      | (cases hs; exact hreb ▸ Nat.lt_succ_self _)
  | assignLocked =>
    cases hcb : t.callback <;> simp only [hcb, reduceCtorEq] at hs
    rw [hcb] at hst
    exact hst.elim
  | revoke answers list =>
    cases hcb : t.callback <;> simp only [hcb, reduceCtorEq] at hs
    cases hs
    refine .inl ?_
    rw [(revokeLocked_counters _ answers list).1]
    exact hreb ▸ Nat.lt_succ_self _
  | fail =>
    cases hcb : t.callback <;> simp only [hcb, reduceCtorEq] at hs hst
    cases hs
    obtain ⟨rfl, hnat⟩ := hst
    exact .inr ⟨hreb, hnat, List.mem_append_right _ (List.mem_singleton_self _),
      allCancelled_cancelAll t⟩
  | failToken =>
    cases hcb : t.callback <;> simp only [hcb, reduceCtorEq] at hs hst
    cases hs
    exact .inr ⟨hreb, hst.1, hst.2.1, hst.2.2, rfl⟩
  | unassign =>
    cases hcb : t.callback <;> simp only [hcb, reduceCtorEq] at hs hst
    cases hs
    exact .inr ⟨hreb, congrArg _ hst.1, hst.2.1, hst.2.2.1, hst.2.2.2⟩
  | takeError =>
    simp only at hs
    split at hs <;> cases hs
    exact h.beside rfl rfl rfl rfl rfl rfl fun _ hc => hc
  | cancelOwner =>
    cases hs
    exact h.beside rfl rfl rfl rfl rfl rfl fun _ _ => rfl
  | cancelContext context =>
    simp only at hs
    split_ifs at hs
    cases hs
    refine h.beside rfl rfl rfl rfl rfl rfl fun c hc => ?_
    rw [isCancelled, Bool.or_eq_true] at hc ⊢
    refine hc.imp_right fun hc => ?_
    by_cases hcc : c = context
    · subst hcc
      exact Function.update_self ..
    · exact (Function.update_of_ne hcc _ _).trans hc

/-! ## Acknowledgements after a failure -/

/-- No acknowledgement is applied: the assignments have failed, or `fail` is between cancelling the
contexts and cancelling the token. -/
def Refusing (s : State) : Prop := s.failed = true ∨ s.callback = .cancelling ∧ AllCancelled s

theorem Refusing.step (h : Refusing s) (hs : step cfg s a = some t) : Refusing t := by
  unfold Kafka.step at hs
  cases a with
  | assign answers list =>
    cases hcb : s.callback <;> simp only [hcb, reduceCtorEq] at hs
    have hf : s.failed = true := h.resolve_right fun hc => by rw [hcb] at hc; cases hc.1
    split at hs <;> cases hs <;> exact .inl hf
  | assignLocked =>
    cases hcb : s.callback <;> simp only [hcb, reduceCtorEq] at hs
    have hf : s.failed = true := h.resolve_right fun hc => by rw [hcb] at hc; cases hc.1
    split_ifs at hs <;> cases hs
    · exact .inl hf
    · exact .inl ((assignLocked_locked s _ _).failed.trans hf)
  | revoke answers list =>
    cases hcb : s.callback <;> simp only [hcb, reduceCtorEq] at hs
    have hf : s.failed = true := h.resolve_right fun hc => by rw [hcb] at hc; cases hc.1
    cases hs
    exact .inl ((revokeLocked_locked _ answers list).failed.trans hf)
  | other | fail | unassign =>
    cases hcb : s.callback <;> simp only [hcb, reduceCtorEq] at hs
    have hf : s.failed = true := h.resolve_right fun hc => by rw [hcb] at hc; cases hc.1
    cases hs
    exact .inl hf
  | failToken =>
    cases hcb : s.callback <;> simp only [hcb, reduceCtorEq] at hs
    cases hs
    exact .inl rfl
  | takeError =>
    simp only at hs
    split at hs <;> cases hs
    exact h
  | cancelOwner =>
    cases hs
    exact h.imp_right fun hc => ⟨hc.1, hc.2.mono rfl fun _ _ => rfl⟩
  | cancelContext context =>
    simp only at hs
    split_ifs at hs
    cases hs
    refine h.imp_right fun hc => ⟨hc.1, hc.2.mono rfl fun c hcan => ?_⟩
    rw [isCancelled, Bool.or_eq_true] at hcan ⊢
    refine hcan.imp_right fun hcan => ?_
    by_cases hcc : c = context
    · subst hcc
      exact Function.update_self ..
    · exact (Function.update_of_ne hcc _ _).trans hcan

theorem Refusing.acknowledge (h : Refusing s) {ω T : Type} (partition : ℤ) (generation : ℕ)
    (apply : ω → Except HandlerError T × ω) (w : ω) :
    s.acknowledge partition generation apply w =
      (.error "Kafka message belongs to a revoked assignment", w) := by
  unfold State.acknowledge
  rw [if_pos]
  rw [Bool.or_eq_true]
  refine h.imp_right fun hc => ?_
  rw [Bool.not_eq_true']
  cases hl : s.partitions.lookup partition with
  | none => rfl
  | some v =>
    obtain ⟨g, context⟩ := v
    simp only [hc.2 partition g context hl, Bool.not_true, Bool.and_false]

/-- From `fail` on, acknowledgements are refused. -/
theorem refusing_of_fail {as : List Action} (hr : (assignments cfg).run s as = some t)
    (hm : Action.fail ∈ as) : Refusing t := by
  obtain ⟨before, after, rfl⟩ := List.append_of_mem hm
  obtain ⟨u, -, hr⟩ := System.run_append hr
  simp only [System.run, Option.bind_eq_some_iff] at hr
  obtain ⟨v, hv, hr⟩ := hr
  have hv' : Refusing v := by
    simp only [assignments, step] at hv
    cases hcb : u.callback <;> simp only [hcb, reduceCtorEq] at hv
    cases hv
    exact .inr ⟨rfl, allCancelled_cancelAll u⟩
  exact System.run_invariant (fun _ _ _ h hs => h.step hs) hv' hr

/-! ## The error that is kept -/

/-- The slot holds the first error until it is taken. -/
structure ErrorOk (s : State) : Prop where
  kept : s.taken = [] → s.error = s.recorded.head?
  first : s.taken ≠ [] → s.taken.head? = s.recorded.head?
  recorded : s.taken ≠ [] → s.recorded ≠ []

theorem ErrorOk.congr (h : ErrorOk s) (he : t.error = s.error) (hr : t.recorded = s.recorded)
    (ht : t.taken = s.taken) : ErrorOk t := by
  refine ⟨?_, ?_, ?_⟩ <;> rw [ht, hr]
  · rw [he]
    exact h.kept
  · exact h.first
  · exact h.recorded

theorem ErrorOk.step (h : ErrorOk s) (hs : step cfg s a = some t) : ErrorOk t := by
  unfold Kafka.step at hs
  cases a with
  | assign answers list =>
    cases hcb : s.callback <;> simp only [hcb, reduceCtorEq] at hs
    split at hs <;> cases hs <;> exact h.congr rfl rfl rfl
  | assignLocked =>
    cases hcb : s.callback <;> simp only [hcb, reduceCtorEq] at hs
    rename_i answers list
    have hl := assignLocked_locked s answers list
    split_ifs at hs <;> cases hs
    · exact h.congr rfl rfl rfl
    · exact h.congr hl.error hl.recorded hl.taken
  | revoke answers list =>
    cases hcb : s.callback <;> simp only [hcb, reduceCtorEq] at hs
    have hl := revokeLocked_locked { s with callback := .idle, rebalances := s.rebalances + 1 }
      answers list
    cases hs
    exact h.congr hl.error hl.recorded hl.taken
  | fail =>
    cases hcb : s.callback <;> simp only [hcb, reduceCtorEq] at hs
    rename_i e
    cases hs
    refine ⟨fun ht => ?_, fun ht => ?_, fun _ => List.append_ne_nil_of_right_ne_nil _ nofun⟩
    · change s.error.or (some e) = (s.recorded ++ [e]).head?
      rw [h.kept ht, List.head?_append]
      rfl
    · change s.taken.head? = (s.recorded ++ [e]).head?
      rw [h.first ht, List.head?_append_of_ne_nil _ (h.recorded ht)]
  | takeError =>
    simp only at hs
    split at hs <;> cases hs
    rename_i e he _
    have hfirst : (s.taken ++ [e]).head? = s.recorded.head? := by
      by_cases ht : s.taken = []
      · rw [ht, List.nil_append, ← h.kept ht, he]
        rfl
      · rw [List.head?_append_of_ne_nil _ ht, h.first ht]
    refine ⟨fun ht => ?_, fun _ => hfirst, fun _ hnil => ?_⟩
    · exact absurd ht (List.append_ne_nil_of_right_ne_nil _ nofun)
    · rw [hnil] at hfirst
      cases hs : s.taken <;> rw [hs] at hfirst <;> cases hfirst
  | other | failToken | unassign =>
    cases hcb : s.callback <;> simp only [hcb, reduceCtorEq] at hs
    cases hs
    exact h.congr rfl rfl rfl
  | cancelOwner =>
    cases hs
    exact h.congr rfl rfl rfl
  | cancelContext context =>
    simp only at hs
    split_ifs at hs
    cases hs
    exact h.congr rfl rfl rfl

/-! ## Main result -/

/-- A native assignment is made by the locked part of an assignment, if its owner is not cancelled. -/
theorem step_native_assign (hs : step cfg s a = some t) {list : List Item}
    (hn : t.native = .assign list :: s.native ∨ t.native = .incrementalAssign list :: s.native) :
    s.ownerCancelled = false ∧ ∃ answers, s.callback = .assigning answers list := by
  have hsame : t.native ≠ s.native := by
    intro hsame
    rw [hsame] at hn
    rcases hn with hn | hn <;> exact List.ne_cons_self hn
  unfold step at hs
  cases a with
  | assign answers list =>
    cases hcb : s.callback <;> simp only [hcb, reduceCtorEq] at hs
    split at hs <;> cases hs <;> exact absurd rfl hsame
  | assignLocked =>
    cases hcb : s.callback <;> simp only [hcb, reduceCtorEq] at hs
    rename_i answers list'
    have hl := assignLocked_locked s answers list'
    split_ifs at hs with hc <;> cases hs
    · exact absurd rfl hsame
    · rw [hl.native] at hn
      refine ⟨Bool.eq_false_iff.2 hc, answers, ?_⟩
      cases hco : answers.cooperative <;> simp [hco] at hn <;> rw [hn]
  | revoke answers list' =>
    cases hcb : s.callback <;> simp only [hcb, reduceCtorEq] at hs
    have hl := revokeLocked_locked { s with callback := .idle, rebalances := s.rebalances + 1 }
      answers list'
    cases hs
    rw [hl.native] at hn
    cases hco : answers.cooperative <;> simp [hco] at hn
  | unassign =>
    cases hcb : s.callback <;> simp only [hcb, reduceCtorEq] at hs
    cases hs
    simp at hn
  | other | fail | failToken =>
    cases hcb : s.callback <;> simp only [hcb, reduceCtorEq] at hs
    cases hs
    exact absurd rfl hsame
  | takeError =>
    simp only at hs
    split at hs <;> cases hs
    exact absurd rfl hsame
  | cancelOwner =>
    cases hs
    exact absurd rfl hsame
  | cancelContext context =>
    simp only at hs
    split_ifs at hs
    cases hs
    exact absurd rfl hsame

/-- **Assignments from a checkpoint are all or nothing.** In every state that callbacks, cancellations
and `take_error` reach:

* a list that has passed the checks names the partitions it was given with;
* when a checkpoint is restored, a native assignment is made only with the owner not cancelled and
  with a list whose items all have the topic and their checkpoint offset, within the watermarks;
* a callback in which a check or a native call fails runs to its end, and when it has ended
  `unassign` was called, its error was recorded and every context is cancelled; from `fail` on no
  acknowledgement is applied, however the steps interleave;
* `take_error` returns the first error that was recorded. -/
theorem assignment_atomicity (h : (assignments cfg).Reachable s) :
    (∀ answers list t list', step cfg s (.assign answers list) = some t →
      t.callback = .assigning answers list' →
      list'.map (fun i => (i.topic, i.partition)) = list.map (fun i => (i.topic, i.partition))) ∧
    (∀ a t list, cfg.restoring = true → step cfg s a = some t →
      t.native = .assign list :: s.native ∨ t.native = .incrementalAssign list :: s.native →
      s.ownerCancelled = false ∧ ∃ answers offsets, s.callback = .assigning answers list ∧
        answers.restore = .ok (some offsets) ∧
        ∀ item ∈ list, item.topic = cfg.topic ∧ Covered answers offsets item) ∧
    (∀ a t e, step cfg s a = some t → failure cfg s a = some e →
      ((assignments cfg).run t [.fail, .failToken, .unassign]).isSome ∧
      ∀ as u, (assignments cfg).run t as = some u →
        (u.callback = .idle → u.rebalances = t.rebalances →
          u.native = .unassign :: t.native ∧ e ∈ u.recorded ∧ AllCancelled u) ∧
        (Action.fail ∈ as → ∀ (ω T : Type) (partition : ℤ) (generation : ℕ)
          (apply : ω → Except HandlerError T × ω) (w : ω),
          u.acknowledge partition generation apply w =
            (.error "Kafka message belongs to a revoked assignment", w))) ∧
    (s.taken = [] → s.error = s.recorded.head?) ∧
    (s.taken ≠ [] → s.taken.head? = s.recorded.head?) := by
  have herr : ErrorOk s := h.invariant ⟨fun _ => rfl, fun h => (h rfl).elim, fun h => (h rfl).elim⟩
    fun _ _ _ hi hs => hi.step hs
  refine ⟨fun answers list t list' hs hc => ?_, fun a t list hres hs hn => ?_,
    fun a t e hs hf => ?_, herr.kept, herr.first⟩
  · simp only [step] at hs
    cases hcb : s.callback <;> simp only [hcb, reduceCtorEq] at hs
    split at hs <;> cases hs
    · rename_i hok
      cases hc
      exact (checkAssignment_eq_ok hok).2
    · cases hc
  · obtain ⟨howner, answers, hcb⟩ := step_native_assign hs hn
    obtain ⟨offsets, hrestore, hmode, hall⟩ := checked_reachable h hcb
    obtain ⟨o, rfl⟩ := Option.isSome_iff_exists.1 (hmode.trans hres)
    exact ⟨howner, answers, o, hcb, hrestore, fun item hi => ⟨(hall item hi).1,
      (hall item hi).2 o rfl⟩⟩
  · have hcb := step_failure hs hf
    refine ⟨?_, fun as u hr => ⟨fun hidle hreb => ?_,
      fun hm _ _ => (refusing_of_fail hr hm).acknowledge⟩⟩
    · simp [System.run, assignments, step, hcb]
    · have hstart : Failing t e t := .inr ⟨rfl, by rw [hcb]; exact ⟨rfl, rfl⟩⟩
      have hend : Failing t e u :=
        System.run_invariant (I := Failing t e) (fun _ _ _ h hs => h.step hs) hstart hr
      rcases hend with hlt | ⟨-, hend⟩
      · exact absurd hreb hlt.ne'
      · rw [hidle] at hend
        exact ⟨hend.1, hend.2.1, hend.2.2.1⟩

/-- A checkpoint covers partition 2, and the native assignment fails. -/
def refused : Answers where
  cooperative := false
  restore := .ok (some (Finmap.singleton 2 5))
  fetchWatermarks := fun _ _ => .ok (0, 10)
  setOffset := fun _ => .ok ()
  native := .error "native"

/-- The list is checked, and is about to be assigned. -/
theorem refused_runs :
    ((assignments ⟨"orders", true⟩).run State.init
      [.assign refused [⟨"orders", 2, none⟩]]).isSome := by
  decide +kernel

theorem refused_assignLocked :
    (step ⟨"orders", true⟩ (((assignments ⟨"orders", true⟩).run State.init
      [.assign refused [⟨"orders", 2, none⟩]]).get refused_runs) .assignLocked).isSome := by
  decide +kernel

/-- The native assignment gets the checkpoint offset and fails; the callback then takes everything
back. -/
theorem assignment_atomicity_refused :
    ∃ s t, (assignments ⟨"orders", true⟩).Reachable s ∧
      step ⟨"orders", true⟩ s .assignLocked = some t ∧
      t.native = [.assign [⟨"orders", 2, some 5⟩]] ∧ s.ownerCancelled = false ∧
      ∀ as u, (assignments ⟨"orders", true⟩).run t as = some u → u.callback = .idle →
        u.rebalances = t.rebalances → u.native = .unassign :: t.native ∧ AllCancelled u := by
  have h := System.reachable_get refused_runs
  set s := ((assignments ⟨"orders", true⟩).run State.init
    [.assign refused [⟨"orders", 2, none⟩]]).get refused_runs
  obtain ⟨-, hassign, hfail, -⟩ := assignment_atomicity h
  set t := (step ⟨"orders", true⟩ s .assignLocked).get refused_assignLocked
  have hs : step ⟨"orders", true⟩ s .assignLocked = some t := (Option.some_get _).symm
  have hn : t.native = .assign [⟨"orders", 2, some 5⟩] :: s.native := rfl
  refine ⟨s, t, h, hs, hn, (hassign _ t _ rfl hs (.inl hn)).1, fun as u hr hidle hreb => ?_⟩
  obtain ⟨hun, -, hall⟩ := ((hfail _ t "native" hs rfl).2 as u hr).1 hidle hreb
  exact ⟨hun, hall⟩

end Kafka

end ServiceLib
