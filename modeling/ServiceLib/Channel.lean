import Mathlib

/-!
# Logs of several channels

One log records what goes through several channels, as pairs of a channel and an item. `through c`
is what the log says about one of them. If every channel has passed on a prefix of what was sent
into it, then no item has been passed on more often than it was sent (`subperm_of_fronts`).
-/

namespace ServiceLib

namespace Channel

variable {ι α : Type*} [DecidableEq ι] {c c' : ι} {log log' : List (ι × α)}

/-- The items of one channel. -/
def through (c : ι) (log : List (ι × α)) : List α :=
  (log.filter fun x => x.1 = c).map fun x => x.2

@[simp] theorem through_nil : through c ([] : List (ι × α)) = [] := rfl

@[simp] theorem through_append : through c (log ++ log') = through c log ++ through c log' := by
  unfold through
  rw [List.filter_append, List.map_append]

theorem through_self (c : ι) (x : α) : through c [(c, x)] = [x] := by
  unfold through
  rw [List.filter_cons_of_pos (by simp)]
  rfl

theorem through_of_ne (h : c' ≠ c) (x : α) : through c [(c', x)] = [] := by
  unfold through
  rw [List.filter_cons_of_neg (by simpa using h)]
  rfl

theorem mem_through {x : α} : x ∈ through c log ↔ (c, x) ∈ log := by
  unfold through
  rw [List.mem_map]
  constructor
  · intro h
    obtain ⟨y, hy, rfl⟩ := h
    obtain ⟨hmem, hc⟩ := List.mem_filter.mp hy
    rw [decide_eq_true_eq] at hc
    exact hc ▸ hmem
  · intro h
    exact ⟨(c, x), List.mem_filter.mpr ⟨h, by simp⟩, rfl⟩

/-- A channel keeps the order of the log. -/
theorem through_sublist (c : ι) (log : List (ι × α)) :
    (through c log).Sublist (log.map fun x => x.2) :=
  List.filter_sublist.map _

theorem count_through [DecidableEq α] (c : ι) (x : α) (log : List (ι × α)) :
    (through c log).count x = log.count (c, x) := by
  induction log with
  | nil => rfl
  | cons y log ih =>
    have hsplit : y :: log = [y] ++ log := rfl
    rw [hsplit, through_append, List.count_append, List.count_append, ih]
    congr 1
    obtain ⟨c', x'⟩ := y
    by_cases hc : c' = c
    · subst hc
      rw [through_self]
      by_cases hx : x' = x
      · subst hx
        simp
      · rw [List.count_singleton, List.count_singleton]
        simp [hx]
    · rw [through_of_ne hc, List.count_nil, List.count_singleton]
      simp [hc]

/-- **Nothing is passed on twice.** -/
theorem subperm_of_fronts [DecidableEq α] (h : ∀ c, through c log' <+: through c log) :
    (log'.map fun x => x.2).Subperm (log.map fun x => x.2) := by
  have hlog : log'.Subperm log := by
    refine List.subperm_ext_iff.mpr fun y _ => ?_
    obtain ⟨c, x⟩ := y
    rw [← count_through, ← count_through]
    exact (h c).sublist.count_le x
  obtain ⟨log'', hperm, hsublist⟩ := hlog
  exact ⟨_, hperm.map _, hsublist.map _⟩

end Channel

end ServiceLib
