import Mathlib

/-!
# Machines that answer

A component that is used by one owner at a time is a `Machine`: each operation gives an answer and
the next state. `Machine.exec` is a sequence of operations with all of its answers.

**Theorem (`Machine.Simulates.exec`).** Two machines give the same answers to every sequence of
operations if some relation holds of the two initial states and every step keeps it and answers the
same.
-/

namespace ServiceLib

universe u v w x

structure Machine (σ : Type u) (Op : Type v) (Answer : Type w) where
  init : σ
  step : σ → Op → Answer × σ

namespace Machine

variable {σ : Type u} {τ : Type x} {Op : Type v} {Answer : Type w}

/-- The answers to the operations, and the state after them. -/
def exec (M : Machine σ Op Answer) : σ → List Op → List Answer × σ
  | s, [] => ([], s)
  | s, op :: ops =>
    let (answer, next) := M.step s op
    let (answers, last) := M.exec next ops
    (answer :: answers, last)

theorem exec_cons (M : Machine σ Op Answer) (s : σ) (op : Op) (ops : List Op) :
    M.exec s (op :: ops) =
      ((M.step s op).1 :: (M.exec (M.step s op).2 ops).1, (M.exec (M.step s op).2 ops).2) := rfl

/-- A relation that every step keeps, with the same answers. -/
structure Simulates (M : Machine σ Op Answer) (N : Machine τ Op Answer) (R : σ → τ → Prop) :
    Prop where
  init : R M.init N.init
  answer : ∀ s t op, R s t → (M.step s op).1 = (N.step t op).1
  next : ∀ s t op, R s t → R (M.step s op).2 (N.step t op).2

variable {M : Machine σ Op Answer} {N : Machine τ Op Answer} {R : σ → τ → Prop}

/-- **The simulation rule**, from any two related states. -/
theorem Simulates.exec_from (h : M.Simulates N R) (ops : List Op) {s : σ} {t : τ} (hR : R s t) :
    (M.exec s ops).1 = (N.exec t ops).1 ∧ R (M.exec s ops).2 (N.exec t ops).2 := by
  induction ops generalizing s t with
  | nil => exact ⟨rfl, hR⟩
  | cons op ops ih =>
    have hanswer := h.answer s t op hR
    obtain ⟨hrest, hlast⟩ := ih (h.next s t op hR)
    rw [exec_cons, exec_cons, hanswer, hrest]
    exact ⟨rfl, hlast⟩

theorem Simulates.exec (h : M.Simulates N R) (ops : List Op) :
    (M.exec M.init ops).1 = (N.exec N.init ops).1 ∧
      R (M.exec M.init ops).2 (N.exec N.init ops).2 :=
  h.exec_from ops h.init

end Machine

end ServiceLib
