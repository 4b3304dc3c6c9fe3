import ServiceLib.HashMap
import ServiceLib.Transition

/-!
# Cron activations that wait for a result

Follows `CronEndpointConsumer::consume` and `CronResultConsumer::consume` in
`src/datasource/cron/croner.rs`. An activation of an endpoint with a result stream leaves the
sender of a one-shot channel in `pending` under its stream id, runs `on_trigger`, and waits for the
receiver. A result that arrives takes the sender out of `pending` and sends.

**Theorem (`activations_answered`).** No activation is stuck, in every run in which a stream id is
not given up (no further result for it will be produced) while an activation is registered under it
and no result is on its way. Every step that gives one up in this way leads to a stuck activation.

Nothing else ends the wait: the activation does not look at its context while it waits, as the
other sources do, and the scheduler that drains its tasks waits with it.

The results that the graph produces are arbitrary, and so are the moments at which an activation is
dropped. A result that is on its way will be delivered.
-/

namespace ServiceLib

namespace CronActivation

/-! ## Data -/

inductive Pc
  /-- `on_trigger` runs. -/
  | triggering
  /-- `receiver.await` -/
  | waiting
  /-- About to remove the entry. -/
  | removing
  | returned
  /-- The task was aborted, or `on_trigger` has panicked. -/
  | dropped
  deriving DecidableEq

/-- The activation is in the middle of `consume`, with a receiver. -/
def Pc.live : Pc → Bool
  | .triggering | .waiting => true
  | .removing | .returned | .dropped => false

/-- `result` is the stream id under which the activation waits for a result, if it does; `sent` says
whether its channel has got one. -/
structure Activation where
  pc : Pc
  result : Option String
  sent : Bool
  cancelled : Bool

structure State where
  /-- The activation whose sender is stored. -/
  pending : HashMap String ℕ
  activations : ℕ → Option Activation
  /-- The results that are on their way. -/
  results : List String
  /-- No further result for these stream ids will be produced. -/
  givenUp : String → Bool
  ownerCancelled : Bool

def State.init : State where
  pending := ∅
  activations := fun _ => none
  results := []
  givenUp := fun _ => false
  ownerCancelled := false

def State.set (s : State) (r : ℕ) (x : Activation) : State :=
  { s with activations := Function.update s.activations r (some x) }

/-! ## The system -/

inductive Action
  /-- `consume` is called with a context that has this stream id. -/
  | consume (r : ℕ) (streamId : Option String)
  /-- `on_trigger` returns. -/
  | triggered (r : ℕ)
  /-- The receiver has its value, or its error. -/
  | received (r : ℕ)
  | remove (r : ℕ)
  | drop (r : ℕ)
  /-- The context of an activation is cancelled, or that of the owner and all of theirs with it. -/
  | cancel (r : ℕ)
  | cancelOwner
  /-- The graph produces a result, or will not produce any more. -/
  | produce (streamId : String)
  | giveUp (streamId : String)
  /-- `CronResultConsumer::consume` -/
  | deliver (streamId : String)

/-- Up to `on_trigger`; `hasResult`: there is a result stream. -/
def consume (hasResult : Bool) (s : State) (r : ℕ) (streamId : Option String) : State :=
  if hasResult then
    match streamId with
    | none => s.set r ⟨.returned, none, false, s.ownerCancelled⟩
    | some sid =>
      match s.pending.lookup sid with
      | some _ => s.set r ⟨.returned, none, false, s.ownerCancelled⟩
      | none =>
        State.set { s with pending := s.pending.insert sid r } r
          ⟨.triggering, some sid, false, s.ownerCancelled⟩
  else s.set r ⟨.triggering, none, false, s.ownerCancelled⟩

/-- A result arrives: the sender, if there is one, is taken and used. -/
def deliver (s : State) (sid : String) : State :=
  match s.pending.lookup sid with
  | none => s
  | some r =>
    let s := { s with pending := s.pending.erase sid }
    match s.activations r with
    | some x => s.set r { x with sent := true }
    | none => s

/-- `receiver.await` ends: the sender was used, or is gone. -/
def State.resolved (s : State) (r : ℕ) (x : Activation) : Bool :=
  x.sent || x.result.all fun sid => s.pending.lookup sid != some r

def step (hasResult : Bool) (s : State) : Action → Option State
  | .consume r streamId =>
    match s.activations r with
    | some _ => none
    | none => some (CronActivation.consume hasResult s r streamId)
  | .triggered r =>
    match s.activations r with
    | some x =>
      if x.pc = .triggering then
        some (s.set r { x with pc := if x.result.isSome then .waiting else .returned })
      else none
    | none => none
  | .received r =>
    match s.activations r with
    | some x =>
      if x.pc = .waiting ∧ s.resolved r x then some (s.set r { x with pc := .removing }) else none
    | none => none
  | .remove r =>
    match s.activations r with
    | some x =>
      if x.pc = .removing then
        let pending := match x.result with
          | some sid => s.pending.erase sid
          | none => s.pending
        some (State.set { s with pending := pending } r { x with pc := .returned })
      else none
    | none => none
  | .drop r =>
    match s.activations r with
    | some x => if x.pc.live then some (s.set r { x with pc := .dropped }) else none
    | none => none
  | .cancel r =>
    match s.activations r with
    | some x => some (s.set r { x with cancelled := true })
    | none => none
  | .cancelOwner =>
    some { s with
      activations := fun r => (s.activations r).map fun x => { x with cancelled := true }
      ownerCancelled := true }
  | .produce sid =>
    if s.givenUp sid then none else some { s with results := s.results ++ [sid] }
  | .giveUp sid => some { s with givenUp := Function.update s.givenUp sid true }
  | .deliver sid =>
    if sid ∈ s.results then
      some (CronActivation.deliver { s with results := s.results.erase sid } sid)
    else none

def system (hasResult : Bool) : System State Action := ⟨.init, step hasResult⟩

/-! ## Stuck activations -/

/-- An activation is registered under the stream id, and has not got a result. -/
def Registered (s : State) (sid : String) (r : ℕ) (x : Activation) : Prop :=
  s.activations r = some x ∧ x.pc.live = true ∧ x.result = some sid ∧
    s.pending.lookup sid = some r

/-- The activation waits although its context is cancelled, and no result will come. -/
def Stuck (s : State) (r : ℕ) : Prop :=
  ∃ x sid, Registered s sid r x ∧ x.pc = .waiting ∧ x.cancelled = true ∧ s.givenUp sid = true ∧
    sid ∉ s.results

/-- A stream id is not given up while an activation is registered under it and no result is on its
way; nor does a new activation get one that has been given up. -/
def Answered (hasResult : Bool) (s : State) : Action → Prop
  | .giveUp sid => (∃ r x, Registered s sid r x) → sid ∈ s.results
  | .consume _ (some sid) => hasResult = true → s.pending.lookup sid = none →
      s.givenUp sid = true → sid ∈ s.results
  | _ => True

variable {hasResult : Bool} {s t : State} {a : Action} {sid : String} {r : ℕ} {x : Activation}

/-! ## What a step does to a registered activation -/

theorem State.set_self (s : State) (r : ℕ) (x : Activation) :
    (s.set r x).activations r = some x :=
  Function.update_self ..

theorem State.set_of_ne (s : State) {r r' : ℕ} (hr : r' ≠ r) (x : Activation) :
    (s.set r x).activations r' = s.activations r' :=
  Function.update_of_ne hr ..

/-- An activation changes, and stays or becomes one that is not registered. -/
theorem Registered.of_set {y y' : Activation} {r' : ℕ} (h : Registered (s.set r y') sid r' x)
    (hy : s.activations r = some y) (hlive : y'.pc.live = true → y.pc.live = true)
    (hres : y'.result = y.result) : ∃ z, Registered s sid r' z := by
  obtain ⟨hx, hpc, hsid, hp⟩ := h
  by_cases hr : r' = r
  · subst hr
    rw [State.set_self] at hx
    cases hx
    exact ⟨y, hy, hlive hpc, hres ▸ hsid, hp⟩
  · rw [State.set_of_ne s hr] at hx
    exact ⟨x, hx, hpc, hsid, hp⟩

/-- A sender is taken out of `pending`. -/
theorem Registered.of_erase {sid' : String}
    (h : Registered { s with pending := s.pending.erase sid' } sid r x) :
    sid ≠ sid' ∧ Registered s sid r x := by
  obtain ⟨hx, hpc, hsid, hp⟩ := h
  by_cases hs : sid = sid'
  · subst hs
    rw [Finmap.lookup_erase] at hp
    cases hp
  · exact ⟨hs, hx, hpc, hsid, by rwa [Finmap.lookup_erase_ne hs] at hp⟩

theorem Registered.of_deliver {sid' : String} (h : Registered (deliver s sid') sid r x) :
    sid ≠ sid' ∧ ∃ z, Registered s sid r z := by
  unfold deliver at h
  split at h
  · rename_i hnone
    refine ⟨?_, x, h⟩
    rintro rfl
    rw [h.2.2.2] at hnone
    cases hnone
  · rename_i r' hsome
    dsimp only at h
    split at h
    · rename_i y hy
      obtain ⟨z, hz⟩ := h.of_set hy id rfl
      exact ⟨hz.of_erase.1, z, hz.of_erase.2⟩
    · exact ⟨h.of_erase.1, x, h.of_erase.2⟩

/-- An activation is registered only by its own `consume`. -/
theorem Registered.of_step (hs : step hasResult s a = some t) (h : Registered t sid r x) :
    (∃ z, Registered s sid r z) ∨
      (a = .consume r (some sid) ∧ hasResult = true ∧ s.pending.lookup sid = none) := by
  cases a with
  | consume r' streamId =>
    simp only [step] at hs
    split at hs
    · cases hs
    · rename_i hnone
      cases hs
      have hnew : ∀ {y : Activation}, y.pc.live = false ∨ y.result = none →
          Registered (s.set r' y) sid r x → Registered s sid r x := by
        intro y hy ⟨hx, hpc, hsid, hp⟩
        by_cases hr : r = r'
        · subst hr
          rw [State.set_self] at hx
          cases hx
          rcases hy with hy | hy
          · rw [hy] at hpc
            cases hpc
          · rw [hy] at hsid
            cases hsid
        · rw [State.set_of_ne s hr] at hx
          exact ⟨hx, hpc, hsid, hp⟩
      unfold consume at h
      split_ifs at h with hres
      · split at h
        · exact Or.inl ⟨x, hnew (Or.inl rfl) h⟩
        · rename_i sid'
          split at h
          · exact Or.inl ⟨x, hnew (Or.inl rfl) h⟩
          · rename_i hlookup
            obtain ⟨hx, hpc, hsid, hp⟩ := h
            by_cases hr : r = r'
            · subst hr
              rw [State.set_self] at hx
              cases hx
              cases hsid
              exact Or.inr ⟨rfl, hres, hlookup⟩
            · rw [State.set_of_ne _ hr] at hx
              have hne : sid ≠ sid' := by
                rintro rfl
                change (s.pending.insert sid r').lookup sid = some r at hp
                rw [Finmap.lookup_insert] at hp
                exact hr (Option.some.inj hp).symm
              refine Or.inl ⟨x, hx, hpc, hsid, ?_⟩
              change (s.pending.insert sid' r').lookup sid = some r at hp
              rwa [Finmap.lookup_insert_of_ne _ hne] at hp
      · exact Or.inl ⟨x, hnew (Or.inr rfl) h⟩
  | triggered r' =>
    simp only [step] at hs
    split at hs
    · rename_i y hy
      split_ifs at hs with hpc
      all_goals
        cases hs
        refine Or.inl (h.of_set hy (fun _ => ?_) rfl)
        rw [hpc]
        rfl
    · cases hs
  | received r' =>
    simp only [step] at hs
    split at hs
    · rename_i y hy
      split_ifs at hs
      cases hs
      exact Or.inl (h.of_set hy (by simp [Pc.live]) rfl)
    · cases hs
  | remove r' =>
    simp only [step] at hs
    split at hs
    · rename_i y hy
      split_ifs at hs
      cases hs
      obtain ⟨z, hz⟩ := h.of_set hy (by simp [Pc.live]) rfl
      refine Or.inl ⟨z, ?_⟩
      cases hres : y.result with
      | none =>
        rw [hres] at hz
        exact hz
      | some sid' =>
        rw [hres] at hz
        exact hz.of_erase.2
    · cases hs
  | drop r' =>
    simp only [step] at hs
    split at hs
    · rename_i y hy
      split_ifs at hs
      cases hs
      exact Or.inl (h.of_set hy (by simp [Pc.live]) rfl)
    · cases hs
  | cancel r' =>
    simp only [step] at hs
    split at hs
    · rename_i y hy
      cases hs
      exact Or.inl (h.of_set hy id rfl)
    · cases hs
  | cancelOwner =>
    cases hs
    obtain ⟨hx, hpc, hsid, hp⟩ := h
    obtain ⟨z, hz, rfl⟩ := Option.map_eq_some_iff.1 hx
    exact Or.inl ⟨z, hz, hpc, hsid, hp⟩
  | produce sid' =>
    simp only [step] at hs
    split_ifs at hs
    cases hs
    exact Or.inl ⟨x, h⟩
  | giveUp sid' =>
    cases hs
    exact Or.inl ⟨x, h⟩
  | deliver sid' =>
    simp only [step] at hs
    split_ifs at hs
    cases hs
    exact Or.inl h.of_deliver.2

/-! ## The invariant -/

/-- A result is on its way for every registered activation whose stream id is given up. -/
def Inv (s : State) : Prop :=
  ∀ sid r x, Registered s sid r x → s.givenUp sid = true → sid ∈ s.results

theorem inv_init : Inv .init := by
  intro sid r x h
  cases h.1

theorem Inv.not_stuck (h : Inv s) (r : ℕ) : ¬ Stuck s r := by
  rintro ⟨x, sid, hreg, -, -, hg, hr⟩
  exact hr (h sid r x hreg hg)

/-- The graph and the owner are not changed by an activation that moves on. -/
theorem consume_graph (hasResult : Bool) (s : State) (r : ℕ) (streamId : Option String) :
    (consume hasResult s r streamId).results = s.results ∧
      (consume hasResult s r streamId).givenUp = s.givenUp := by
  unfold consume
  split_ifs
  · split
    · exact ⟨rfl, rfl⟩
    · split <;> exact ⟨rfl, rfl⟩
  · exact ⟨rfl, rfl⟩

theorem deliver_graph (s : State) (sid : String) :
    (deliver s sid).results = s.results ∧ (deliver s sid).givenUp = s.givenUp := by
  unfold deliver
  split
  · exact ⟨rfl, rfl⟩
  · dsimp only
    split <;> exact ⟨rfl, rfl⟩

/-- What a step does to the results that are on their way and to the stream ids given up. -/
theorem step_graph (hs : step hasResult s a = some t) :
    (t.results = s.results ∧ t.givenUp = s.givenUp) ∨
      (∃ sid, a = .produce sid ∧ t.results = s.results ++ [sid] ∧ t.givenUp = s.givenUp) ∨
      (∃ sid, a = .giveUp sid ∧ t.results = s.results ∧
        t.givenUp = Function.update s.givenUp sid true) ∨
      ∃ sid, a = .deliver sid ∧ t.results = s.results.erase sid ∧ t.givenUp = s.givenUp := by
  cases a with
  | consume r streamId =>
    simp only [step] at hs
    split at hs <;> cases hs
    exact Or.inl (consume_graph hasResult s r streamId)
  | produce sid =>
    simp only [step] at hs
    split_ifs at hs
    cases hs
    exact Or.inr (Or.inl ⟨sid, rfl, rfl, rfl⟩)
  | giveUp sid =>
    cases hs
    exact Or.inr (Or.inr (Or.inl ⟨sid, rfl, rfl, rfl⟩))
  | deliver sid =>
    simp only [step] at hs
    split_ifs at hs
    cases hs
    exact Or.inr (Or.inr (Or.inr ⟨sid, rfl, deliver_graph _ sid⟩))
  | cancelOwner =>
    cases hs
    exact Or.inl ⟨rfl, rfl⟩
  | cancel r =>
    simp only [step] at hs
    split at hs <;> cases hs
    exact Or.inl ⟨rfl, rfl⟩
  | triggered r | received r | remove r | drop r =>
    simp only [step] at hs
    split at hs
    · split_ifs at hs
      all_goals
        cases hs
        exact Or.inl ⟨rfl, rfl⟩
    · cases hs

/-- A step that keeps the condition keeps the invariant. The delivered result is the only one that
goes, and its stream id has no activation any more. -/
theorem Inv.step (h : Inv s) (hok : Answered hasResult s a)
    (hs : CronActivation.step hasResult s a = some t) : Inv t := by
  intro sid r x hreg hg
  rcases hreg.of_step hs with ⟨z, hz⟩ | ⟨rfl, hres, hlookup⟩
  · rcases step_graph hs with ⟨hr, hg'⟩ | ⟨sid', rfl, hr, hg'⟩ | ⟨sid', rfl, hr, hg'⟩ |
      ⟨sid', rfl, hr, hg'⟩
    · rw [hr]
      exact h sid r z hz (hg' ▸ hg)
    · rw [hr]
      exact List.mem_append_left _ (h sid r z hz (hg' ▸ hg))
    · rw [hr]
      by_cases hsid : sid = sid'
      · subst hsid
        exact hok ⟨r, z, hz⟩
      · refine h sid r z hz ?_
        rwa [hg', Function.update_of_ne hsid] at hg
    · have hne : sid ≠ sid' := by
        simp only [CronActivation.step] at hs
        split_ifs at hs
        cases hs
        exact hreg.of_deliver.1
      rw [hr]
      exact (List.mem_erase_of_ne hne).2 (h sid r z hz (hg' ▸ hg))
  · rcases step_graph hs with ⟨hr, hg'⟩ | ⟨sid', hc, -⟩ | ⟨sid', hc, -⟩ | ⟨sid', hc, -⟩
    · rw [hr]
      exact hok hres hlookup (hg' ▸ hg)
    all_goals cases hc

/-! ## What a step outside the condition leads to -/

/-- An activation waits, its stream id is given up, and there is no result: the cancellation of the
owner finds it stuck. -/
theorem Registered.cancelOwner_stuck (hasResult : Bool) (h : Registered s sid r x)
    (hw : x.pc = .waiting) (hg : s.givenUp sid = true) (hr : sid ∉ s.results) :
    ∃ u, (system hasResult).step s .cancelOwner = some u ∧ Stuck u r := by
  obtain ⟨hx, hpc, hsid, hp⟩ := h
  refine ⟨_, rfl, { x with cancelled := true }, sid, ⟨?_, hpc, hsid, hp⟩, hw, rfl, hg, hr⟩
  show (s.activations r).map _ = _
  rw [hx]
  rfl

/-- It can come to this as soon as an activation is registered. -/
theorem Registered.gets_stuck (hasResult : Bool) (h : Registered s sid r x)
    (hg : s.givenUp sid = true) (hr : sid ∉ s.results) :
    ∃ as u, (system hasResult).run s as = some u ∧ Stuck u r := by
  by_cases hw : x.pc = .waiting
  · obtain ⟨u, hu, hstuck⟩ := h.cancelOwner_stuck hasResult hw hg hr
    exact ⟨[.cancelOwner], u, System.run_singleton hu, hstuck⟩
  · obtain ⟨hx, hpc, hsid, hp⟩ := h
    have ht : x.pc = .triggering := by
      cases hc : x.pc <;> simp_all [Pc.live]
    have hs : (system hasResult).step s (.triggered r) =
        some (s.set r { x with pc := .waiting }) := by
      show step hasResult s (.triggered r) = _
      simp [step, hx, ht, hsid]
    have hreg : Registered (s.set r { x with pc := .waiting }) sid r { x with pc := .waiting } :=
      ⟨State.set_self .., rfl, hsid, hp⟩
    obtain ⟨u, hu, hstuck⟩ := hreg.cancelOwner_stuck hasResult rfl hg hr
    exact ⟨[.triggered r] ++ [.cancelOwner], u,
      System.run_trans (System.run_singleton hs) (System.run_singleton hu), hstuck⟩

/-- A step outside the condition leaves an activation that gets no result. -/
theorem unanswered_of_step (hok : ¬ Answered hasResult s a) (hs : step hasResult s a = some t) :
    ∃ sid r x, Registered t sid r x ∧ t.givenUp sid = true ∧ sid ∉ t.results := by
  cases a with
  | giveUp sid =>
    cases hs
    simp only [Answered, Classical.not_imp] at hok
    obtain ⟨⟨r, x, hreg⟩, hr⟩ := hok
    exact ⟨sid, r, x, hreg, Function.update_self .., hr⟩
  | consume r streamId =>
    cases streamId with
    | none => exact absurd trivial hok
    | some sid =>
      simp only [Answered, Classical.not_imp] at hok
      obtain ⟨hres, hlookup, hg, hr⟩ := hok
      simp only [step] at hs
      split at hs
      · cases hs
      · cases hs
        refine ⟨sid, r, ⟨.triggering, some sid, false, s.ownerCancelled⟩, ⟨?_, rfl, rfl, ?_⟩,
          ?_, ?_⟩
        · simp only [consume, hres, hlookup, if_true]
          exact State.set_self ..
        · simp only [consume, hres, hlookup, if_true]
          exact Finmap.lookup_insert ..
        · rwa [(consume_graph hasResult s r _).2]
        · rwa [(consume_graph hasResult s r _).1]
  | _ => exact absurd trivial hok

/-! ## The wait for a result -/

/-- **A stuck activation needs a stream id that is given up.** In every run that keeps the condition
no activation is stuck; every step outside the condition leads to one that is. -/
theorem activations_answered (hasResult : Bool) {s : State}
    (h : (system hasResult).Reach (Answered hasResult) s) :
    (∀ r, ¬ Stuck s r) ∧
      ∀ a t, step hasResult s a = some t → ¬ Answered hasResult s a →
        ∃ as u r, (system hasResult).run t as = some u ∧ Stuck u r := by
  have hinv : Inv s :=
    System.Reach.invariant inv_init (fun _ _ _ hi hok hs => hi.step hok hs) h
  refine ⟨hinv.not_stuck, fun a t hs hok => ?_⟩
  obtain ⟨sid, r, x, hreg, hg, hr⟩ := unanswered_of_step hok hs
  obtain ⟨as, u, hrun, hstuck⟩ := hreg.gets_stuck hasResult hg hr
  exact ⟨as, u, r, hrun, hstuck⟩

/-- A result that is produced before its stream id is given up ends the wait. -/
theorem answered_activation_returns : ∃ s, (∀ r, ¬ Stuck s r) ∧
    s.activations 0 = some ⟨.returned, some "a", true, false⟩ ∧ s.pending.lookup "a" = none := by
  have h1 : (system true).Reach (Answered true) _ :=
    .step (a := .consume 0 (some "a")) .init (by simp [Answered, system, State.init]) rfl
  have h2 : (system true).Reach (Answered true) _ := .step (a := .produce "a") h1 trivial rfl
  have h3 : (system true).Reach (Answered true) _ :=
    .step (a := .giveUp "a") h2 (fun _ => List.mem_append_right _ (List.mem_singleton_self _)) rfl
  have h4 : (system true).Reach (Answered true) _ := .step (a := .triggered 0) h3 trivial rfl
  have h5 : (system true).Reach (Answered true) _ := .step (a := .deliver "a") h4 trivial rfl
  have h6 : (system true).Reach (Answered true) _ := .step (a := .received 0) h5 trivial rfl
  have h7 : (system true).Reach (Answered true) _ := .step (a := .remove 0) h6 trivial rfl
  exact ⟨_, (activations_answered true h7).1, rfl, rfl⟩

/-! ## An activation whose trigger sends nothing on -/

def filteredRun : List Action :=
  [.consume 0 (some "a"), .giveUp "a", .triggered 0, .cancelOwner]

theorem filteredRun_runs : ((system true).run .init filteredRun).isSome := by
  decide +kernel

/-- The graph drops the only value of an activation and produces no result, and the owner is
cancelled: the activation is stuck. -/
theorem cancelled_activation_stuck :
    ∃ s, (system true).Reachable s ∧ s.ownerCancelled = true ∧ Stuck s 0 := by
  refine ⟨_, System.reachable_get (S := system true) filteredRun_runs, rfl,
    ⟨.waiting, some "a", false, true⟩, "a", ⟨rfl, rfl, rfl, ?_⟩, rfl, rfl, rfl, by decide +kernel⟩
  decide +kernel

end CronActivation

end ServiceLib
