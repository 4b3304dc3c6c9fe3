import Mathlib

/-!
# Work that makes work

Items are processed one at a time, in any order, and processing an item leaves the items it expands
to. Nothing here mentions a particular component.

* `Trace expand xs l`: going through `xs` depth first, and through what every item expands to before
  the next one, processes the items `l`. There is none if this does not end.
* `Balanced expand fed work log`: of the items `fed`, those in `log` have been processed, and `work`
  is what is left of the others.

**Theorem (`Balanced.log_perm`).** When no work is left, what was processed is a permutation of the
depth-first trace, whatever the order was.

**Theorem (`Balanced.log_subperm`).** If the depth-first trace ends, then no order processes more
than it does.

The idea: a permutation of the work permutes the trace, and processing an item takes it out of the
trace of the work and leaves the rest.
-/

namespace ServiceLib

namespace WorkList

variable {α : Type*} {expand expand' : α → List α}

/-! ## The depth-first trace -/

inductive Trace (expand : α → List α) : List α → List α → Prop
  | nil : Trace expand [] []
  | cons {x : α} {xs l l' : List α} (hx : Trace expand (expand x) l) (hxs : Trace expand xs l') :
    Trace expand (x :: xs) (x :: (l ++ l'))

theorem Trace.single {x : α} {l : List α} (h : Trace expand (expand x) l) :
    Trace expand [x] (x :: l) := by
  have hcons := h.cons .nil
  rwa [List.append_nil] at hcons

theorem Trace.unique {xs l l' : List α} (h : Trace expand xs l) (h' : Trace expand xs l') :
    l = l' := by
  induction h generalizing l' with
  | nil =>
    cases h'
    rfl
  | cons _ _ ihx ihxs =>
    cases h' with
    | cons hx hxs => rw [ihx hx, ihxs hxs]

theorem Trace.append {xs ys l l' : List α} (h : Trace expand xs l) (h' : Trace expand ys l') :
    Trace expand (xs ++ ys) (l ++ l') := by
  induction h with
  | nil => exact h'
  | cons hx _ _ ihxs =>
    rw [List.cons_append, List.cons_append, List.append_assoc]
    exact .cons hx ihxs

theorem Trace.split {xs ys l : List α} (h : Trace expand (xs ++ ys) l) :
    ∃ l₁ l₂, Trace expand xs l₁ ∧ Trace expand ys l₂ ∧ l = l₁ ++ l₂ := by
  induction xs generalizing l with
  | nil => exact ⟨[], l, .nil, h, rfl⟩
  | cons x xs ih =>
    cases h with
    | cons hx hxs =>
      obtain ⟨l₁, l₂, h₁, h₂, rfl⟩ := ih hxs
      exact ⟨_, l₂, .cons hx h₁, h₂, by simp⟩

/-- The order of the items only moves parts of the trace, also inside of an expansion. -/
theorem Trace.perm (hexpand : ∀ x, (expand x).Perm (expand' x)) {xs l : List α}
    (h : Trace expand xs l) : ∀ {ys : List α}, xs.Perm ys →
      ∃ l', Trace expand' ys l' ∧ l.Perm l' := by
  induction h with
  | nil =>
    intro ys hys
    obtain rfl := hys.nil_eq
    exact ⟨[], .nil, .refl _⟩
  | @cons x xs l l' _ _ ihx ihxs =>
    intro ys hys
    obtain ⟨front, back, rfl⟩ := List.append_of_mem (hys.subset List.mem_cons_self)
    obtain ⟨lx, hx, hlx⟩ := ihx (hexpand x)
    obtain ⟨lr, hr, hlr⟩ := ihxs ((List.perm_cons x).mp (hys.trans List.perm_middle))
    obtain ⟨l₁, l₂, h₁, h₂, rfl⟩ := hr.split
    refine ⟨_, h₁.append (.cons hx h₂), ?_⟩
    calc (x :: (l ++ l')).Perm (x :: (lx ++ (l₁ ++ l₂))) := (hlx.append hlr).cons x
      _ |>.Perm (x :: (l₁ ++ (lx ++ l₂))) := by
        refine List.Perm.cons x ?_
        rw [← List.append_assoc, ← List.append_assoc]
        exact List.perm_append_comm.append_right l₂
      _ |>.Perm (l₁ ++ x :: (lx ++ l₂)) := List.perm_middle.symm

theorem Trace.perm_self {xs ys l : List α} (h : Trace expand xs l) (hxs : xs.Perm ys) :
    ∃ l', Trace expand ys l' ∧ l.Perm l' :=
  h.perm (fun _ => .refl _) hxs

/-! ## What is left -/

/-- The traces of `fed` are those of `work`, with the items of `log`. -/
structure Balanced (expand : α → List α) (fed work log : List α) : Prop where
  forth : ∀ l, Trace expand fed l → ∃ l', Trace expand work l' ∧ l.Perm (log ++ l')
  back : ∀ l', Trace expand work l' → ∃ l, Trace expand fed l ∧ l.Perm (log ++ l')

variable {fed work work' log : List α}

theorem Balanced.nil : Balanced expand [] [] [] :=
  ⟨fun l h => ⟨l, h, .refl _⟩, fun l h => ⟨l, h, .refl _⟩⟩

theorem Balanced.rearrange (h : Balanced expand fed work log) (hw : work.Perm work') :
    Balanced expand fed work' log where
  forth := by
    intro l hl
    obtain ⟨l', hl', hp⟩ := h.forth l hl
    obtain ⟨l'', hl'', hp'⟩ := hl'.perm_self hw
    exact ⟨l'', hl'', hp.trans (hp'.append_left log)⟩
  back := by
    intro l' hl'
    obtain ⟨l'', hl'', hp'⟩ := hl'.perm_self hw.symm
    obtain ⟨l, hl, hp⟩ := h.back l'' hl''
    exact ⟨l, hl, hp.trans (hp'.symm.append_left log)⟩

/-- New items come in. -/
theorem Balanced.feed (h : Balanced expand fed work log) (xs : List α) :
    Balanced expand (fed ++ xs) (work ++ xs) log where
  forth := by
    intro l hl
    obtain ⟨l₁, l₂, h₁, h₂, rfl⟩ := hl.split
    obtain ⟨l', hl', hp⟩ := h.forth l₁ h₁
    refine ⟨l' ++ l₂, hl'.append h₂, ?_⟩
    rw [← List.append_assoc]
    exact hp.append_right l₂
  back := by
    intro l' hl'
    obtain ⟨l₁, l₂, h₁, h₂, rfl⟩ := hl'.split
    obtain ⟨l, hl, hp⟩ := h.back l₁ h₁
    refine ⟨l ++ l₂, hl.append h₂, ?_⟩
    rw [← List.append_assoc]
    exact hp.append_right l₂

/-- An item is processed. -/
theorem Balanced.process {x : α} (h : Balanced expand fed (x :: work) log) :
    Balanced expand fed (expand x ++ work) (log ++ [x]) where
  forth := by
    intro l hl
    obtain ⟨l', hl', hp⟩ := h.forth l hl
    cases hl' with
    | cons hx hxs =>
      refine ⟨_, hx.append hxs, ?_⟩
      rw [List.append_assoc]
      exact hp
  back := by
    intro l' hl'
    obtain ⟨l₁, l₂, h₁, h₂, rfl⟩ := hl'.split
    obtain ⟨l, hl, hp⟩ := h.back _ (.cons h₁ h₂)
    refine ⟨l, hl, ?_⟩
    rw [List.append_assoc]
    exact hp

/-! ## Any order -/

/-- **Any order processes the same items.** -/
theorem Balanced.log_perm (h : Balanced expand fed [] log) :
    ∃ l, Trace expand fed l ∧ l.Perm log := by
  obtain ⟨l, hl, hp⟩ := h.back [] .nil
  rw [List.append_nil] at hp
  exact ⟨l, hl, hp⟩

/-- **No order processes more than the depth-first one.** -/
theorem Balanced.log_subperm (h : Balanced expand fed work log) {l : List α}
    (hl : Trace expand fed l) : log.Subperm l := by
  obtain ⟨l', -, hp⟩ := h.forth l hl
  exact (List.sublist_append_left log l').subperm.trans hp.symm.subperm

/-- Two orders, of the same items up to their order, with expansions that differ in their order. -/
theorem Balanced.logs_perm {fed' log' : List α} (hexpand : ∀ x, (expand x).Perm (expand' x))
    (h : Balanced expand fed [] log) (h' : Balanced expand' fed' [] log') (hfed : fed.Perm fed') :
    log.Perm log' := by
  obtain ⟨l, hl, hp⟩ := h.log_perm
  obtain ⟨l', hl', hp'⟩ := h'.log_perm
  obtain ⟨l'', hl'', hpp⟩ := hl.perm hexpand hfed
  obtain rfl := hl''.unique hl'
  exact hp.symm.trans (hpp.trans hp')

end WorkList

end ServiceLib
