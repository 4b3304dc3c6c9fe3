import ServiceLib.Transition

/-!
# Calls behind a gate

Asynchronous calls share data through a gate that one call holds at a time, from when it enters
until it returns. A call can be dropped whenever it awaits something, and the gate is free again
then, with the data as they are. Beside the calls, the background changes the data whether the gate
is free or not.

* `Protocol` — what one call does, from each place where it stands, on the data.
* `Protocol.system` — any number of calls, whose contexts can be cancelled.
* `Rules` — the conditions on a protocol, one for each kind of step, that speak of one call only.
* `Rules.ok`, `Rules.returned`, `Rules.run_rel` — what they give for every run.
* `Protocol.Path` — a call that no other call disturbs.

The idea: `J` holds of the data while the gate is free, `K pc` while it is held by a call that
stands at `pc`. A call that may be dropped at `pc` has to keep `J` there.
-/

namespace ServiceLib

namespace Gate

universe u

/-- Where a call stands. -/
inductive Caller (W P R : Type u)
  | waiting (entry : W)
  | inside (pc : P)
  | returned (result : R)
  | dropped

/-- Data behind a gate, and the calls. -/
structure State (σ W P R : Type u) where
  data : σ
  gate : Option ℕ
  calls : ℕ → Option (Caller W P R)
  /-- Is the context of a call cancelled? -/
  cancelled : ℕ → Bool

/-- Calls enter as `W`, stand at a `P`, and return an `R`. What they await is answered with an `A`;
the background does `B`. -/
structure Protocol (σ W P R A B : Type u) where
  init : σ
  /-- A call gets the gate. -/
  enter : W → Bool → σ → Option (σ × (P ⊕ R))
  /-- A call returns without the gate, which is free or not. -/
  leave : W → Bool → Option R
  proceed : P → A → Bool → σ → Option (σ × (P ⊕ R))
  /-- Does a call at this place await something? -/
  awaits : P → Bool
  background : B → σ → Option σ

inductive Action (W A B : Type u)
  | call (c : ℕ) (entry : W)
  | cancel (c : ℕ)
  | enter (c : ℕ)
  | leave (c : ℕ)
  | proceed (c : ℕ) (answer : A)
  | drop (c : ℕ)
  | background (b : B)

variable {σ W P R A B : Type u}

namespace State

def setCall (s : State σ W P R) (c : ℕ) (x : Caller W P R) : State σ W P R :=
  { s with calls := Function.update s.calls c (some x) }

@[simp] theorem setCall_data (s : State σ W P R) (c : ℕ) (x : Caller W P R) :
    (s.setCall c x).data = s.data := rfl

@[simp] theorem setCall_gate (s : State σ W P R) (c : ℕ) (x : Caller W P R) :
    (s.setCall c x).gate = s.gate := rfl

theorem setCall_self (s : State σ W P R) (c : ℕ) (x : Caller W P R) :
    (s.setCall c x).calls c = some x := Function.update_self ..

theorem setCall_of_ne (s : State σ W P R) {c c' : ℕ} (x : Caller W P R) (h : c' ≠ c) :
    (s.setCall c x).calls c' = s.calls c' := Function.update_of_ne h ..

/-- A call goes on inside, or returns and gives the gate back. -/
def after (s : State σ W P R) (c : ℕ) (result : σ × (P ⊕ R)) : State σ W P R :=
  match result.2 with
  | .inl pc => { s.setCall c (.inside pc) with data := result.1, gate := some c }
  | .inr r => { s.setCall c (.returned r) with data := result.1, gate := none }

@[simp] theorem after_data (s : State σ W P R) (c : ℕ) (result : σ × (P ⊕ R)) :
    (s.after c result).data = result.1 := by
  unfold after
  split <;> rfl

theorem after_of_ne (s : State σ W P R) {c c' : ℕ} (result : σ × (P ⊕ R)) (h : c' ≠ c) :
    (s.after c result).calls c' = s.calls c' := by
  unfold after
  split
  · exact s.setCall_of_ne _ h
  · exact s.setCall_of_ne _ h

end State

namespace Protocol

variable (S : Protocol σ W P R A B)

def step (s : State σ W P R) : Action W A B → Option (State σ W P R)
  | .call c entry => if (s.calls c).isNone then some (s.setCall c (.waiting entry)) else none
  | .cancel c => some { s with cancelled := Function.update s.cancelled c true }
  | .enter c =>
    match s.gate, s.calls c with
    | none, some (.waiting entry) => (S.enter entry (s.cancelled c) s.data).map (s.after c)
    | _, _ => none
  | .leave c =>
    match s.calls c with
    | some (.waiting entry) =>
      if s.cancelled c then
        (S.leave entry s.gate.isNone).map fun r => s.setCall c (.returned r)
      else none
    | _ => none
  | .proceed c answer =>
    match s.calls c with
    | some (.inside pc) => (S.proceed pc answer (s.cancelled c) s.data).map (s.after c)
    | _ => none
  | .drop c =>
    match s.calls c with
    | some (.waiting _) => some (s.setCall c .dropped)
    | some (.inside pc) =>
      if S.awaits pc then some { s.setCall c .dropped with gate := none } else none
    | _ => none
  | .background b => (S.background b s.data).map fun d => { s with data := d }

def system : System (State σ W P R) (Action W A B) where
  init :=
    { data := S.init
      gate := none
      calls := fun _ => none
      cancelled := fun _ => false }
  step := S.step

end Protocol

/-! ## Rules -/

/-- What a call has to establish before it goes on, or returns. -/
def AfterOk (J : σ → Prop) (K : P → σ → Prop) (Q : R → σ → Prop) (result : σ × (P ⊕ R)) : Prop :=
  match result.2 with
  | .inl pc => K pc result.1
  | .inr r => J result.1 ∧ Q r result.1

/-- `Q` holds when a call returns. -/
structure Rules (S : Protocol σ W P R A B) (J : σ → Prop) (K : P → σ → Prop)
    (Q : R → σ → Prop) : Prop where
  init : J S.init
  enter : ∀ entry cancelled d result, J d → S.enter entry cancelled d = some result →
    AfterOk J K Q result
  proceed : ∀ pc answer cancelled d result, K pc d → S.proceed pc answer cancelled d = some result →
    AfterOk J K Q result
  drop : ∀ pc d, K pc d → S.awaits pc = true → J d
  free : ∀ b d d', J d → S.background b d = some d' → J d'
  held : ∀ pc b d d', K pc d → S.background b d = some d' → K pc d'

/-- The invariant of the system. -/
structure State.Ok (J : σ → Prop) (K : P → σ → Prop) (s : State σ W P R) : Prop where
  free : s.gate = none → J s.data
  held : ∀ c, s.gate = some c → ∃ pc, s.calls c = some (.inside pc) ∧ K pc s.data
  inside : ∀ c pc, s.calls c = some (.inside pc) → s.gate = some c

variable {S : Protocol σ W P R A B} {J : σ → Prop} {K : P → σ → Prop} {Q : R → σ → Prop}
  {s t : State σ W P R} {a : Action W A B}

namespace State.Ok

/-- What holds in either case. -/
theorem data (h : s.Ok J K) {I : σ → Prop} (hJ : ∀ d, J d → I d) (hK : ∀ pc d, K pc d → I d) :
    I s.data := by
  cases hg : s.gate with
  | none => exact hJ _ (h.free hg)
  | some c =>
    obtain ⟨pc, -, hpc⟩ := h.held c hg
    exact hK pc _ hpc

theorem at_pc (h : s.Ok J K) {c : ℕ} {pc : P} (hc : s.calls c = some (.inside pc)) :
    K pc s.data := by
  obtain ⟨pc', hc', hk⟩ := h.held c (h.inside c pc hc)
  rw [hc, Option.some.injEq, Caller.inside.injEq] at hc'
  exact hc' ▸ hk

/-- No other call is inside. -/
theorem alone (h : s.Ok J K) {c c' : ℕ} {pc : P} (hg : s.gate = none ∨ s.gate = some c)
    (hc : s.calls c' = some (.inside pc)) : c' = c := by
  have hg' := h.inside c' pc hc
  rcases hg with hg | hg
  · rw [hg] at hg'
    cases hg'
  · rw [hg, Option.some.injEq] at hg'
    exact hg'.symm

/-- A call that does not hold the gate moves outside. -/
theorem setCall (h : s.Ok J K) {c : ℕ} {x : Caller W P R} (hc : s.gate ≠ some c)
    (hx : ∀ pc, x ≠ .inside pc) : (s.setCall c x).Ok J K := by
  refine ⟨h.free, fun c' hg => ?_, fun c' pc hc' => ?_⟩
  · obtain ⟨pc, hc', hk⟩ := h.held c' hg
    have hne : c' ≠ c := by
      rintro rfl
      exact hc hg
    exact ⟨pc, by rwa [s.setCall_of_ne x hne], hk⟩
  · by_cases hcc : c' = c
    · subst hcc
      rw [s.setCall_self, Option.some.injEq] at hc'
      exact (hx pc hc').elim
    · rw [s.setCall_of_ne x hcc] at hc'
      exact h.inside c' pc hc'

/-- The call at the gate goes on. -/
theorem after (h : s.Ok J K) {c : ℕ} {result : σ × (P ⊕ R)}
    (hg : s.gate = none ∨ s.gate = some c) (hr : AfterOk J K Q result) :
    (s.after c result).Ok J K := by
  obtain ⟨d, next⟩ := result
  cases next with
  | inl pc =>
    refine ⟨fun hn => (by cases hn), fun c' hc' => ?_, fun c' pc' hc' => ?_⟩
    · cases hc'
      exact ⟨pc, s.setCall_self c _, hr⟩
    · by_cases hcc : c' = c
      · exact hcc ▸ rfl
      · exact (hcc (h.alone hg (s.setCall_of_ne _ hcc ▸ hc'))).elim
  | inr r =>
    refine ⟨fun _ => hr.1, fun c' hc' => (by cases hc'), fun c' pc' hc' => ?_⟩
    by_cases hcc : c' = c
    · subst hcc
      cases (s.setCall_self c' (.returned r)).symm.trans hc'
    · exact (hcc (h.alone hg (s.setCall_of_ne _ hcc ▸ hc'))).elim

end State.Ok

/-- What a step is: of a call inside, of a call outside, or of the background. -/
inductive Protocol.Moves (S : Protocol σ W P R A B) (s : State σ W P R) : State σ W P R → Prop
  | outside {c : ℕ} {x : Caller W P R} (hc : ∀ pc, s.calls c ≠ some (.inside pc))
      (hx : ∀ pc, x ≠ .inside pc)
      (hr : ∀ r, x = .returned r → ∃ entry, s.calls c = some (.waiting entry) ∧
        s.cancelled c = true ∧ S.leave entry s.gate.isNone = some r) : S.Moves s (s.setCall c x)
  | cancel (c : ℕ) : S.Moves s { s with cancelled := Function.update s.cancelled c true }
  | enter {c : ℕ} {entry : W} {result : σ × (P ⊕ R)} (hg : s.gate = none)
      (hc : s.calls c = some (.waiting entry))
      (he : S.enter entry (s.cancelled c) s.data = some result) : S.Moves s (s.after c result)
  | proceed {c : ℕ} {pc : P} {answer : A} {result : σ × (P ⊕ R)}
      (hc : s.calls c = some (.inside pc))
      (hp : S.proceed pc answer (s.cancelled c) s.data = some result) : S.Moves s (s.after c result)
  | drop {c : ℕ} {pc : P} (hc : s.calls c = some (.inside pc)) (ha : S.awaits pc = true) :
      S.Moves s { s.setCall c .dropped with gate := none }
  | background {b : B} {d : σ} (hb : S.background b s.data = some d) :
      S.Moves s { s with data := d }

theorem Protocol.moves (h : S.step s a = some t) : S.Moves s t := by
  cases a with
  | call c entry =>
    simp only [step] at h
    split_ifs at h with hc
    cases h
    exact .outside (fun pc hp => by simp [hp] at hc) (by simp) (by simp)
  | cancel c =>
    cases h
    exact .cancel c
  | enter c =>
    simp only [step] at h
    split at h
    · rename_i entry hg hc
      obtain ⟨result, he, rfl⟩ := Option.map_eq_some_iff.mp h
      exact .enter hg hc he
    · cases h
  | leave c =>
    simp only [step] at h
    split at h
    · rename_i entry hc
      split_ifs at h with hcancelled
      obtain ⟨r, hr, rfl⟩ := Option.map_eq_some_iff.mp h
      refine .outside (by simp [hc]) (by simp) fun r' hr' => ?_
      cases hr'
      exact ⟨entry, hc, hcancelled, hr⟩
    · cases h
  | proceed c answer =>
    simp only [step] at h
    split at h
    · rename_i pc hc
      obtain ⟨result, hp, rfl⟩ := Option.map_eq_some_iff.mp h
      exact .proceed hc hp
    · cases h
  | drop c =>
    simp only [step] at h
    split at h
    · rename_i entry hc
      cases h
      exact .outside (by simp [hc]) (by simp) (by simp)
    · rename_i pc hc
      split_ifs at h with ha
      cases h
      exact .drop hc ha
    · cases h
  | background b =>
    obtain ⟨d, hd, rfl⟩ := Option.map_eq_some_iff.mp h
    exact .background hd

namespace Rules

theorem ok_step (h : Rules S J K Q) (hs : s.Ok J K) (ht : S.step s a = some t) : t.Ok J K := by
  cases Protocol.moves ht with
  | outside hc hx hr =>
    refine hs.setCall (fun hg => ?_) hx
    obtain ⟨pc, hpc, -⟩ := hs.held _ hg
    exact hc pc hpc
  | cancel c => exact ⟨hs.free, hs.held, hs.inside⟩
  | enter hg hc he => exact hs.after (.inl hg) (h.enter _ _ _ _ (hs.free hg) he)
  | proceed hc hp =>
    exact hs.after (.inr (hs.inside _ _ hc)) (h.proceed _ _ _ _ _ (hs.at_pc hc) hp)
  | @drop c pc hc ha =>
    refine ⟨fun _ => h.drop pc _ (hs.at_pc hc) ha, fun c' hg => (by cases hg), fun c' pc' hc' => ?_⟩
    by_cases hcc : c' = c
    · subst hcc
      cases (s.setCall_self c' .dropped).symm.trans hc'
    · exact (hcc (hs.alone (.inr (hs.inside c pc hc)) (s.setCall_of_ne _ hcc ▸ hc'))).elim
  | background hb =>
    refine ⟨fun hg => h.free _ _ _ (hs.free hg) hb, fun c hg => ?_, hs.inside⟩
    obtain ⟨pc, hc, hk⟩ := hs.held c hg
    exact ⟨pc, hc, h.held _ _ _ _ hk hb⟩

/-- **The gate rule.** In every reachable state `J` holds of the data if the gate is free, and `K`
if it is not. -/
theorem ok (h : Rules S J K Q) (hs : S.system.Reachable s) : s.Ok J K := by
  refine hs.invariant (I := State.Ok J K) ⟨fun _ => h.init, fun c hg => ?_, fun c pc hc => ?_⟩
    fun s a t hi ht => h.ok_step hi ht
  · cases hg
  · cases hc

/-- **The result rule.** A call that returns has left without the gate, since its context was
cancelled, and has done nothing, or `Q` holds of its result. -/
theorem returned (h : Rules S J K Q) (hs : s.Ok J K) (ht : S.step s a = some t) {c : ℕ} {r : R}
    (hc : s.calls c ≠ some (.returned r)) (hr : t.calls c = some (.returned r)) :
    (t.data = s.data ∧ ∃ entry, s.calls c = some (.waiting entry) ∧ s.cancelled c = true ∧
      S.leave entry s.gate.isNone = some r) ∨ Q r t.data := by
  have hafter : ∀ c' result, AfterOk J K Q result →
      (s.after c' result).calls c = some (.returned r) → Q r (s.after c' result).data := by
    intro c' result hok hcalls
    by_cases hcc : c = c'
    · subst hcc
      obtain ⟨d, next⟩ := result
      cases next with
      | inl pc => cases (s.setCall_self c (.inside pc)).symm.trans hcalls
      | inr r' =>
        cases (s.setCall_self c (.returned r')).symm.trans hcalls
        exact hok.2
    · exact (hc (s.after_of_ne result hcc ▸ hcalls)).elim
  cases Protocol.moves ht with
  | @outside c' x hc' hx hleave =>
    by_cases hcc : c = c'
    · subst hcc
      rw [s.setCall_self, Option.some.injEq] at hr
      exact .inl ⟨rfl, hleave r hr⟩
    · exact (hc (s.setCall_of_ne x hcc ▸ hr)).elim
  | cancel c' => exact (hc hr).elim
  | enter hg hc' he => exact .inr (hafter _ _ (h.enter _ _ _ _ (hs.free hg) he) hr)
  | proceed hc' hp => exact .inr (hafter _ _ (h.proceed _ _ _ _ _ (hs.at_pc hc') hp) hr)
  | @drop c' pc hc' ha =>
    by_cases hcc : c = c'
    · subst hcc
      cases (s.setCall_self c .dropped).symm.trans hr
    · exact (hc (s.setCall_of_ne .dropped hcc ▸ hr)).elim
  | background hb => exact (hc hr).elim

/-- **The run rule.** What a call and the background may do to the data, a run does. -/
theorem run_rel (h : Rules S J K Q) {G : σ → σ → Prop} (hrefl : ∀ d, G d d)
    (htrans : ∀ d d' d'', G d d' → G d' d'' → G d d'')
    (henter : ∀ entry cancelled d result, J d → S.enter entry cancelled d = some result →
      G d result.1)
    (hproceed : ∀ pc answer cancelled d result, K pc d →
      S.proceed pc answer cancelled d = some result → G d result.1)
    (hbackground : ∀ b d d', S.background b d = some d' → G d d')
    {as : List (Action W A B)} (hs : s.Ok J K) (hr : S.system.run s as = some t) :
    G s.data t.data := by
  have hstep : ∀ s a t, s.Ok J K → S.step s a = some t → G s.data t.data := by
    intro s a t hs ht
    cases Protocol.moves ht with
    | outside hc hx hr => exact hrefl _
    | cancel c => exact hrefl _
    | enter hg hc he => exact s.after_data _ _ ▸ henter _ _ _ _ (hs.free hg) he
    | proceed hc hp => exact s.after_data _ _ ▸ hproceed _ _ _ _ _ (hs.at_pc hc) hp
    | drop hc ha => exact hrefl _
    | background hb => exact hbackground _ _ _ hb
  induction as generalizing s with
  | nil =>
    simp only [System.run, Option.some.injEq] at hr
    exact hr ▸ hrefl _
  | cons a as ih =>
    obtain ⟨s', hs', hr⟩ := Option.bind_eq_some_iff.mp hr
    exact htrans _ _ _ (hstep s a s' hs hs') (ih (h.ok_step hs hs') hr)

end Rules

/-! ## A call that is not disturbed -/

/-- What a call inside reaches, beside the background, before it returns. -/
inductive Protocol.Path (S : Protocol σ W P R A B) (cancelled : Bool) : P → σ → P → σ → Prop
  | refl (pc : P) (d : σ) : S.Path cancelled pc d pc d
  | proceed {pc pc' pc'' : P} {d d' d'' : σ} (answer : A)
      (h : S.proceed pc answer cancelled d = some (d', .inl pc'))
      (rest : S.Path cancelled pc' d' pc'' d'') : S.Path cancelled pc d pc'' d''
  | background {pc pc'' : P} {d d' d'' : σ} (b : B) (h : S.background b d = some d')
      (rest : S.Path cancelled pc d' pc'' d'') : S.Path cancelled pc d pc'' d''

theorem Protocol.Path.trans {cancelled : Bool} {pc pc' pc'' : P} {d d' d'' : σ}
    (h : S.Path cancelled pc d pc' d') (h' : S.Path cancelled pc' d' pc'' d'') :
    S.Path cancelled pc d pc'' d'' := by
  induction h with
  | refl pc d => exact h'
  | proceed answer hp _ ih => exact .proceed answer hp (ih h')
  | background b hb _ ih => exact .background b hb (ih h')

/-- A path is a run of the system. -/
theorem Protocol.Path.run {pc pc' : P} {d d' : σ} {c : ℕ}
    (h : S.Path (s.cancelled c) pc d pc' d') (hc : s.calls c = some (.inside pc))
    (hd : s.data = d) : ∃ as t, S.system.run s as = some t ∧ t.calls c = some (.inside pc') ∧
      t.data = d' ∧ t.cancelled = s.cancelled ∧ ∀ c', c' ≠ c → t.calls c' = s.calls c' := by
  generalize hb : s.cancelled c = cancelled at h
  induction h generalizing s with
  | refl pc d => exact ⟨[], s, rfl, hc, hd, rfl, fun _ _ => rfl⟩
  | @proceed pc pc₁ pc₂ d d₁ d₂ answer hp rest ih =>
    obtain ⟨as, t, hr, ht, hdata, hcancelled, hothers⟩ :=
      ih (s := s.after c (d₁, .inl pc₁)) (s.setCall_self c _) rfl hb
    refine ⟨.proceed c answer :: as, t, ?_, ht, hdata, hcancelled, fun c' hne => ?_⟩
    · rw [← hd, ← hb] at hp
      have hs : S.step s (.proceed c answer) = some (s.after c (d₁, .inl pc₁)) := by
        simp only [Protocol.step, hc, hp, Option.map_some]
      exact Option.bind_eq_some_iff.mpr ⟨_, hs, hr⟩
    · rw [hothers c' hne, s.after_of_ne _ hne]
  | @background pc pc₂ d d₁ d₂ b hback rest ih =>
    obtain ⟨as, t, hr, ht, hdata, hcancelled, hothers⟩ := ih (s := { s with data := d₁ }) hc rfl hb
    refine ⟨.background b :: as, t, ?_, ht, hdata, hcancelled, hothers⟩
    have hs : S.step s (.background b) = some { s with data := d₁ } := by
      simp only [Protocol.step, hd, hback, Option.map_some]
    exact Option.bind_eq_some_iff.mpr ⟨_, hs, hr⟩

/-- Only some calls have been made. -/
theorem Protocol.fresh (h : S.system.Reachable s) : ∃ n, ∀ c, n ≤ c → s.calls c = none := by
  refine h.invariant (I := fun s => ∃ n, ∀ c, n ≤ c → s.calls c = none) ⟨0, fun c _ => rfl⟩
    fun s a t hs ht => ?_
  obtain ⟨n, hn⟩ := hs
  have hset : ∀ c x, ∃ n, ∀ c', n ≤ c' → (s.setCall c x).calls c' = none := by
    refine fun c x => ⟨max n (c + 1), fun c' hc' => ?_⟩
    rw [s.setCall_of_ne x (by omega)]
    exact hn c' (by omega)
  have hafter : ∀ c result, ∃ n, ∀ c', n ≤ c' → (s.after c result).calls c' = none := by
    refine fun c result => ⟨max n (c + 1), fun c' hc' => ?_⟩
    rw [s.after_of_ne result (by omega)]
    exact hn c' (by omega)
  cases Protocol.moves ht with
  | outside hc hx hr => exact hset _ _
  | cancel c => exact ⟨n, hn⟩
  | enter hg hc he => exact hafter _ _
  | proceed hc hp => exact hafter _ _
  | drop hc ha => exact hset _ _
  | background hb => exact ⟨n, hn⟩

end Gate

end ServiceLib
