import Mathlib

/-!
# Transition systems

Every concurrent component of the library is modelled as a deterministic transition function
whose nondeterminism sits in the *action*: the scheduler picks the next action, and an action
that is not enabled yields `none`. A run is a list of actions.

* `System.Reach ok` — the states reached by runs all of whose steps satisfy `ok`.
* `System.Reachable` — the states reached by any run.
* `System.Reach.invariant` — the induction rule every safety proof goes through.

Nothing here mentions a particular component.
-/

namespace ServiceLib

universe u v w

/-- An initial state and a partial step function. -/
structure System (σ : Type u) (α : Type v) where
  init : σ
  step : σ → α → Option σ

namespace System

variable {σ : Type u} {α : Type v} (S : System σ α)

/-- Execute a list of actions; `none` as soon as one of them is not enabled. -/
def run : σ → List α → Option σ
  | s, [] => some s
  | s, a :: as => (S.step s a).bind fun t => run t as

/-- States reached from the initial one by steps that all satisfy `ok`. -/
inductive Reach (ok : σ → α → Prop) : σ → Prop
  | init : Reach ok S.init
  | step {s t : σ} {a : α} : Reach ok s → ok s a → S.step s a = some t → Reach ok t

/-- States reached by any run. -/
def Reachable (s : σ) : Prop := S.Reach (fun _ _ => True) s

variable {S}

theorem Reachable.next {s t : σ} {a : α} (h : S.Reachable s) (hs : S.step s a = some t) :
    S.Reachable t :=
  Reach.step h trivial hs

theorem Reach.reachable {ok : σ → α → Prop} {s : σ} (h : S.Reach ok s) : S.Reachable s := by
  induction h with
  | init => exact Reach.init
  | step _ _ hs ih => exact ih.next hs

theorem Reach.mono {ok ok' : σ → α → Prop} (h : ∀ s a, ok s a → ok' s a) {s : σ}
    (hs : S.Reach ok s) : S.Reach ok' s := by
  induction hs with
  | init => exact Reach.init
  | step _ hok hs ih => exact ih.step (h _ _ hok) hs

/-- **The invariant rule.** What holds initially and is kept by every allowed step holds in every
state such steps reach. -/
theorem Reach.invariant {ok : σ → α → Prop} {I : σ → Prop} (h0 : I S.init)
    (hstep : ∀ s a t, I s → ok s a → S.step s a = some t → I t) {s : σ} (h : S.Reach ok s) :
    I s := by
  induction h with
  | init => exact h0
  | step _ hok hs ih => exact hstep _ _ _ ih hok hs

/-- The invariant rule for unrestricted runs. -/
theorem Reachable.invariant {I : σ → Prop} (h0 : I S.init)
    (hstep : ∀ s a t, I s → S.step s a = some t → I t) {s : σ} (h : S.Reachable s) : I s :=
  Reach.invariant h0 (fun s a t hi _ hs => hstep s a t hi hs) h

/-- **The last step of a party.** `f` says where a party of the system stands. If every allowed
step keeps `At`, and `Moved` holds after each that moves the party, then it holds after a step that
moves the party in a state that allowed steps reach. -/
theorem Reach.moved {π : Type w} {ok : σ → α → Prop} {f : σ → Option π} {At Moved : σ → π → Prop}
    (h0 : ∃ p, f S.init = some p ∧ At S.init p)
    (hstep : ∀ s a t p, S.step s a = some t → ok s a → f s = some p → At s p →
      ∃ p', f t = some p' ∧ At t p' ∧ (p' = p ∨ Moved t p'))
    {s t : σ} {a : α} {p p' : π} (h : S.Reach ok s) (hok : ok s a) (hs : S.step s a = some t)
    (hp : f s = some p) (hp' : f t = some p') (hne : p' ≠ p) : Moved t p' := by
  obtain ⟨q, hq, hat⟩ : ∃ q, f s = some q ∧ At s q := by
    refine Reach.invariant (I := fun s => ∃ q, f s = some q ∧ At s q) h0 (fun u b v hu hb hv => ?_) h
    obtain ⟨q, hq, hat⟩ := hu
    obtain ⟨q', hq', hat', -⟩ := hstep u b v q hv hb hq hat
    exact ⟨q', hq', hat'⟩
  rw [hp, Option.some.injEq] at hq
  subst hq
  obtain ⟨q', hq', -, hmoved⟩ := hstep s a t p hs hok hp hat
  rw [hp', Option.some.injEq] at hq'
  subst hq'
  exact hmoved.resolve_left hne

theorem run_trans {s t u : σ} {as bs : List α} (h : S.run s as = some t)
    (h' : S.run t bs = some u) : S.run s (as ++ bs) = some u := by
  induction as generalizing s with
  | nil =>
    simp only [run, Option.some.injEq] at h
    exact h ▸ h'
  | cons a as ih =>
    simp only [run, Option.bind_eq_some_iff, List.cons_append] at h ⊢
    obtain ⟨s', hs, h⟩ := h
    exact ⟨s', hs, ih h⟩

theorem run_append {s u : σ} {as bs : List α} (h : S.run s (as ++ bs) = some u) :
    ∃ t, S.run s as = some t ∧ S.run t bs = some u := by
  induction as generalizing s with
  | nil => exact ⟨s, rfl, h⟩
  | cons a as ih =>
    simp only [List.cons_append, run, Option.bind_eq_some_iff] at h ⊢
    obtain ⟨s', hs, h⟩ := h
    obtain ⟨t, ht, hu⟩ := ih h
    exact ⟨t, ⟨s', hs, ht⟩, hu⟩

/-- What every step keeps, a run keeps. -/
theorem run_invariant {I : σ → Prop} (hstep : ∀ s a t, I s → S.step s a = some t → I t) {s t : σ}
    {as : List α} (h : I s) (hr : S.run s as = some t) : I t := by
  induction as generalizing s with
  | nil =>
    simp only [run, Option.some.injEq] at hr
    exact hr ▸ h
  | cons a as ih =>
    simp only [run, Option.bind_eq_some_iff] at hr
    obtain ⟨s', hs, hr⟩ := hr
    exact ih (hstep s a s' h hs) hr

theorem run_singleton {s t : σ} {a : α} (h : S.step s a = some t) : S.run s [a] = some t := by
  rw [run, h]
  rfl

/-- A run of actions that are allowed in every state. -/
theorem Reach.run {ok : σ → α → Prop} {s t : σ} {as : List α} (h : S.Reach ok s)
    (hok : ∀ a ∈ as, ∀ u, ok u a) (hr : S.run s as = some t) : S.Reach ok t := by
  induction as generalizing s with
  | nil =>
    simp only [System.run, Option.some.injEq] at hr
    exact hr ▸ h
  | cons a as ih =>
    simp only [System.run, Option.bind_eq_some_iff] at hr
    obtain ⟨u, hu, hr⟩ := hr
    exact ih (h.step (hok a List.mem_cons_self s) hu)
      (fun b hb => hok b (List.mem_cons_of_mem a hb)) hr

theorem Reachable.run {s t : σ} {as : List α} (h : S.Reachable s) (hr : S.run s as = some t) :
    S.Reachable t :=
  Reach.run h (fun _ _ _ => trivial) hr

/-- The end of a run that executes is reachable. -/
theorem reachable_get {as : List α} (h : (S.run S.init as).isSome) :
    S.Reachable ((S.run S.init as).get h) :=
  Reachable.run (s := S.init) Reach.init (Option.some_get h).symm

variable (S) in
/-- The system, started in another state. -/
def startedAt (s : σ) : System σ α := { S with init := s }

variable (S) in
/-- The system that only takes steps that satisfy `ok`. -/
def restrict (ok : σ → α → Prop) [∀ s a, Decidable (ok s a)] : System σ α where
  init := S.init
  step s a := if ok s a then S.step s a else none

/-- Runs of the restricted system show what steps that satisfy `ok` reach. -/
theorem Reachable.reach {ok : σ → α → Prop} [∀ s a, Decidable (ok s a)] {s : σ}
    (h : (S.restrict ok).Reachable s) : S.Reach ok s := by
  refine Reachable.invariant (S := S.restrict ok) (I := fun s => S.Reach ok s) Reach.init
    (fun s a t hi hs => ?_) h
  simp only [restrict] at hs
  split_ifs at hs with hok
  exact hi.step hok hs

end System

end ServiceLib
