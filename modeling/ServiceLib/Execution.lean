import ServiceLib.Transition

/-!
# Infinite runs

A run that never ends, weak fairness of one of its parties, and the rule for what it leads to.

* `System.Execution` — an infinite run from a state.
* `System.Execution.Fair` — a party whose steps stay enabled takes one of them at some time.
* `System.Execution.eventually_of_rank` — the rule every progress proof goes through.
-/

namespace ServiceLib.System

universe u v

variable {σ : Type u} {α : Type v} {S : System σ α} {s : σ}

variable (S s) in
/-- An infinite run. -/
structure Execution where
  state : ℕ → σ
  action : ℕ → α
  start : state 0 = s
  next : ∀ n, S.step (state n) (action n) = some (state (n + 1))

namespace Execution

variable (x : S.Execution s)

/-- What every step keeps is kept. -/
theorem stable {P : σ → Prop} (hstep : ∀ s a t, P s → S.step s a = some t → P t) {n m : ℕ}
    (hle : n ≤ m) (h : P (x.state n)) : P (x.state m) := by
  induction m, hle using Nat.le_induction with
  | base => exact h
  | succ m _ ih => exact hstep _ _ _ ih (x.next m)

/-- Weak fairness of the party whose actions are `mine`: from no time on is it enabled forever
without taking a step. -/
def Fair (mine : α → Prop) : Prop :=
  ∀ n, ∃ m, n ≤ m ∧ (mine (x.action m) ∨ ∀ a, mine a → S.step (x.state m) a = none)

/-- **The rank rule.** If a fair party is enabled until `Done`, its steps lower a rank, and no other
step raises it, then `Done` holds at some time. -/
theorem eventually_of_rank {mine : α → Prop} (hfair : x.Fair mine) {P Done : σ → Prop}
    (rank : σ → ℕ)
    (hkeep : ∀ n, P (x.state n) →
      P (x.state (n + 1)) ∧ rank (x.state (n + 1)) ≤ rank (x.state n))
    (hmine : ∀ n, P (x.state n) → mine (x.action n) →
      rank (x.state (n + 1)) < rank (x.state n))
    (henabled : ∀ n, P (x.state n) → ¬ Done (x.state n) →
      ∃ a, mine a ∧ (S.step (x.state n) a).isSome = true) {n : ℕ} (h : P (x.state n)) :
    ∃ m, n ≤ m ∧ Done (x.state m) := by
  induction hrank : rank (x.state n) using Nat.strong_induction_on generalizing n with
  | _ r ih =>
    obtain ⟨m, hnm, htaken⟩ := hfair n
    -- Up to `m` the rank has not grown.
    have hm : P (x.state m) ∧ rank (x.state m) ≤ r := by
      clear htaken
      induction m, hnm using Nat.le_induction with
      | base => exact ⟨h, hrank.le⟩
      | succ m _ ihm =>
        obtain ⟨hP, hle⟩ := ihm
        exact ⟨(hkeep m hP).1, (hkeep m hP).2.trans hle⟩
    by_cases hdone : Done (x.state m)
    · exact ⟨m, hnm, hdone⟩
    · have hact : mine (x.action m) := by
        refine htaken.resolve_right fun hnone => ?_
        obtain ⟨a, ha, hsome⟩ := henabled m hm.1 hdone
        rw [hnone a ha] at hsome
        cases hsome
      have hlt := hmine m hm.1 hact
      obtain ⟨k, hk, hdone'⟩ := ih _ (hlt.trans_le hm.2) (hkeep m hm.1).1 rfl
      exact ⟨k, by omega, hdone'⟩

end Execution

end ServiceLib.System
