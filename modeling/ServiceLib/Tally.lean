import Mathlib

/-!
# Sums over the parties of a system

A system keeps its parties in a list and changes one of them at a time. What a quantity that is
summed over the parties does then: a changed party trades its old share for its new one
(`sum_map_set`), and a new party adds its share (`sum_map_concat`).
-/

namespace ServiceLib

section Sum

variable {α G : Type*} [AddCommGroup G] (f : α → G) {l : List α}

theorem sum_map_concat (l : List α) (a : α) : ((l ++ [a]).map f).sum = (l.map f).sum + f a := by
  rw [List.map_append, List.sum_append, List.map_singleton, List.sum_singleton]

theorem sum_map_set {i : ℕ} {a : α} (h : l[i]? = some a) (b : α) :
    ((l.set i b).map f).sum = (l.map f).sum - f a + f b := by
  obtain ⟨hi, rfl⟩ := List.getElem?_eq_some_iff.mp h
  have hmap : i < (l.map f).length := by
    rw [List.length_map]
    exact hi
  rw [List.map_set, List.sum_set', dif_pos hmap, List.getElem_map]
  abel

variable {f}

theorem sum_map_eq_zero (h : ∀ a ∈ l, f a = 0) : (l.map f).sum = 0 := by
  apply List.sum_eq_zero
  intro b hb
  obtain ⟨a, ha, rfl⟩ := List.mem_map.mp hb
  exact h a ha

end Sum

/-- A sum of ones is a count. -/
theorem sum_map_eq_countP {α : Type*} {f : α → ℤ} {p : α → Bool} {l : List α}
    (h : ∀ a ∈ l, f a = if p a then 1 else 0) : (l.map f).sum = l.countP p := by
  induction l with
  | nil => rfl
  | cons a l ih =>
    have hrest := ih fun b hb => h b (List.mem_cons_of_mem a hb)
    rw [List.map_cons, List.sum_cons, hrest, h a List.mem_cons_self, List.countP_cons]
    split <;> push_cast <;> ring

/-- Two kinds that no party is both of. -/
theorem countP_or {α : Type*} {p q : α → Bool} {l : List α}
    (h : ∀ a ∈ l, p a = true → q a = false) :
    (l.countP fun a => p a || q a) = l.countP p + l.countP q := by
  induction l with
  | nil => rfl
  | cons a l ih =>
    have hrest := ih fun b hb => h b (List.mem_cons_of_mem a hb)
    have ha := h a List.mem_cons_self
    rw [List.countP_cons, List.countP_cons, List.countP_cons, hrest]
    cases hp : p a with
    | true =>
      rw [ha hp, Bool.true_or, if_pos rfl, if_neg Bool.false_ne_true]
      omega
    | false =>
      rw [Bool.false_or, if_neg Bool.false_ne_true]
      omega

/-- What holds of every party, and of the party that is put in, holds of every party. -/
theorem forall_mem_set {α : Type*} {P : α → Prop} {l : List α} (h : ∀ a ∈ l, P a) {b : α}
    (hb : P b) (i : ℕ) : ∀ a ∈ l.set i b, P a := by
  intro a ha
  obtain hmem | rfl := List.mem_or_eq_of_mem_set ha
  · exact h a hmem
  · exact hb

theorem forall_mem_concat {α : Type*} {P : α → Prop} {l : List α} (h : ∀ a ∈ l, P a) {b : α}
    (hb : P b) : ∀ a ∈ l ++ [b], P a := by
  intro a ha
  obtain hmem | hmem := List.mem_append.mp ha
  · exact h a hmem
  · rw [List.mem_singleton.mp hmem]
    exact hb

end ServiceLib
