import Mathlib

/-!
# Loops

`whileLoop cond body n` runs `while cond { body }` for at most `n` rounds. A body that panics is
`none`, and so is a loop that has not ended after `n` rounds. `whileLoop_rule` is the rule for
total correctness: with an invariant that the body keeps and a measure that it decreases, enough
rounds end the loop, without a panic, in a state where the invariant holds and the condition fails.

`foldlM_rule` is the rule for `for` loops that may return early: the invariant speaks about the
items the loop has passed.
-/

namespace ServiceLib

variable {σ : Type}

def whileLoop (cond : σ → Bool) (body : σ → Option σ) : ℕ → σ → Option σ
  | 0, s => if cond s then none else some s
  | n + 1, s => if cond s then (body s).bind (whileLoop cond body n) else some s

/-- **The loop rule.** -/
theorem whileLoop_rule {cond : σ → Bool} {body : σ → Option σ} {I : σ → Prop} {f : σ → ℕ}
    (hbody : ∀ s, I s → cond s = true → ∃ t, body s = some t ∧ I t ∧ f t < f s)
    {n : ℕ} {s : σ} (hs : I s) (hn : f s ≤ n) :
    ∃ t, whileLoop cond body n s = some t ∧ I t ∧ cond t = false := by
  induction n generalizing s with
  | zero =>
    have hc : cond s = false := by
      by_contra hc
      obtain ⟨t, -, -, hf⟩ := hbody s hs (by simpa using hc)
      omega
    exact ⟨s, by simp [whileLoop, hc], hs, hc⟩
  | succ n ih =>
    cases hc : cond s with
    | false => exact ⟨s, by simp [whileLoop, hc], hs, hc⟩
    | true =>
      obtain ⟨t, ht, hi, hf⟩ := hbody s hs hc
      obtain ⟨u, hu, hiu, hcu⟩ := ih hi (by omega)
      exact ⟨u, by simp [whileLoop, hc, ht, hu], hiu, hcu⟩

/-! ## Loops that may return early -/

theorem except_bind_eq_ok {ε α β : Type} {x : Except ε α} {f : α → Except ε β} {b : β} :
    (x >>= f) = .ok b ↔ ∃ a, x = .ok a ∧ f a = .ok b := by
  cases x with
  | error e => exact ⟨nofun, nofun⟩
  | ok a => exact ⟨fun h => ⟨a, rfl, h⟩, fun ⟨_, ha, h⟩ => by cases ha; exact h⟩

/-- **The rule for loops that may return early.** -/
theorem foldlM_rule {α ε : Type} {f : σ → α → Except ε σ} {I : List α → σ → Prop}
    (hstep : ∀ l s a t, I l s → f s a = .ok t → I (l ++ [a]) t) {l : List α} {s t : σ}
    (hs : I [] s) (h : l.foldlM f s = .ok t) : I l t := by
  have hgen : ∀ (l pre : List α) (s : σ), I pre s → l.foldlM f s = .ok t → I (pre ++ l) t := by
    intro l
    induction l with
    | nil =>
      intro pre s hs h
      simp only [List.foldlM_nil, pure, Except.pure, Except.ok.injEq] at h
      rw [List.append_nil]
      exact h ▸ hs
    | cons a l ih =>
      intro pre s hs h
      rw [List.foldlM_cons] at h
      obtain ⟨u, hf, h⟩ := except_bind_eq_ok.1 h
      have hu := ih (pre ++ [a]) u (hstep pre s a u hs hf) h
      rwa [List.append_assoc, List.singleton_append] at hu
  exact hgen l [] s hs h

end ServiceLib
