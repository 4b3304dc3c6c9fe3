import Mathlib

/-!
# Histories

A history is the list of what has happened, oldest first. Many properties say of each event what
has to have happened before it: `Each P h` says that every event of `h` satisfies `P` of the events
before it. A step that appends one event has one thing to show (`each_concat`).
-/

namespace ServiceLib

variable {ε : Type*}

/-- Every event satisfies `P` of the events before it. -/
def Each (P : List ε → ε → Prop) (h : List ε) : Prop :=
  ∀ before e after, h = before ++ e :: after → P before e

variable {P Q : List ε → ε → Prop} {h : List ε}

theorem each_nil : Each P [] := by
  intro before e after heq
  exact absurd heq.symm (List.append_ne_nil_of_right_ne_nil before (List.cons_ne_nil e after))

theorem each_concat {x : ε} : Each P (h ++ [x]) ↔ Each P h ∧ P h x := by
  constructor
  · intro heach
    refine ⟨fun before e after heq => ?_, heach h x [] rfl⟩
    apply heach before e (after ++ [x])
    rw [heq, List.append_assoc, List.cons_append]
  · rintro ⟨heach, hx⟩ before e after heq
    rcases List.eq_nil_or_concat after with rfl | ⟨front, y, rfl⟩
    · obtain ⟨rfl, hlast⟩ := List.append_inj' heq rfl
      cases hlast
      exact hx
    · rw [List.concat_eq_append, ← List.cons_append, ← List.append_assoc] at heq
      exact heach before e front (List.append_inj' heq rfl).1

/-- What follows from `P` as long as it has held so far. -/
theorem Each.imp (hP : Each P h) (himp : ∀ before e, before ++ [e] <+: h → P before e → Q before e) :
    Each Q h := by
  intro before e after heq
  apply himp before e _ (hP before e after heq)
  exact ⟨after, by rw [heq, List.append_assoc, List.singleton_append]⟩

end ServiceLib
