import ServiceLib.HashMap

/-!
# Doubly linked lists in a map

The nodes of a linked list live in a hash map and refer to each other by key. `Segment m b l a`
says that `m` holds the nodes of `l`, linked in order, that the first one points back to `b` and
the last one forward to `a`. A list is taken apart and put together with `segment_append`; the
two ends of a segment are redirected by `Segment.setNext` and `Segment.setPrevious`, and a write
outside a segment leaves it alone (`Segment.insert_of_notMem`).
-/

namespace ServiceLib

namespace Linked

variable {K V : Type}

/-- A value with its neighbours. -/
structure Node (K V : Type) where
  entry : V
  previous : Option K
  next : Option K

/-- The key that follows when `l` comes next and `after` follows `l`. -/
def firstKey : List (K × V) → Option K → Option K
  | [], after => after
  | e :: _, _ => some e.1

/-- The key that precedes what follows `l`, when `before` precedes `l`. -/
def lastKey : Option K → List (K × V) → Option K
  | before, [] => before
  | _, e :: l => lastKey (some e.1) l

@[simp] theorem firstKey_append (l₁ l₂ : List (K × V)) (after : Option K) :
    firstKey (l₁ ++ l₂) after = firstKey l₁ (firstKey l₂ after) := by
  cases l₁ <;> rfl

@[simp] theorem lastKey_append (before : Option K) (l₁ l₂ : List (K × V)) :
    lastKey before (l₁ ++ l₂) = lastKey (lastKey before l₁) l₂ := by
  induction l₁ generalizing before with
  | nil => rfl
  | cons e l₁ ih => exact ih (some e.1)

theorem lastKey_eq_none {l : List (K × V)} (h : lastKey none l = none) : l = [] := by
  induction l using List.reverseRecOn with
  | nil => rfl
  | append_singleton l e _ => simp [lastKey] at h

variable [DecidableEq K]

/-- `m.get_mut(&key).unwrap()` with a write through it; `none` is the panic. -/
def update (m : HashMap K (Node K V)) (k : K) (f : Node K V → Node K V) :
    Option (HashMap K (Node K V)) :=
  (m.lookup k).map fun n => m.insert k (f n)

/-- The nodes of `l` are in `m`, linked in order, between `before` and `after`. -/
def Segment (m : HashMap K (Node K V)) : Option K → List (K × V) → Option K → Prop
  | _, [], _ => True
  | before, e :: l, after =>
    m.lookup e.1 = some ⟨e.2, before, firstKey l after⟩ ∧ Segment m (some e.1) l after

variable {m : HashMap K (Node K V)} {before after : Option K} {l l₁ l₂ : List (K × V)}

theorem segment_append : Segment m before (l₁ ++ l₂) after ↔
    Segment m before l₁ (firstKey l₂ after) ∧ Segment m (lastKey before l₁) l₂ after := by
  induction l₁ generalizing before with
  | nil => simp [Segment, lastKey]
  | cons e l₁ ih =>
    simp only [List.cons_append, Segment, firstKey_append, lastKey, ih]
    exact and_assoc.symm

/-- A segment only depends on the nodes it names. -/
theorem Segment.congr {m' : HashMap K (Node K V)} (h : Segment m before l after)
    (hm : ∀ k ∈ l.map Prod.fst, m'.lookup k = m.lookup k) : Segment m' before l after := by
  induction l generalizing before with
  | nil => trivial
  | cons e l ih =>
    refine ⟨by rw [hm e.1 (by simp)]; exact h.1, ih h.2 fun k hk => hm k ?_⟩
    exact List.mem_cons_of_mem _ hk

/-- A write to a node outside of a segment does not show in it. -/
theorem Segment.insert_of_notMem (h : Segment m before l after) {k : K} (n : Node K V)
    (hk : k ∉ l.map Prod.fst) : Segment (m.insert k n) before l after := by
  apply h.congr
  intro k' hk'
  exact Finmap.lookup_insert_of_ne _ fun he => hk (he ▸ hk')

theorem Segment.erase_of_notMem (h : Segment m before l after) {k : K}
    (hk : k ∉ l.map Prod.fst) : Segment (m.erase k) before l after := by
  apply h.congr
  intro k' hk'
  exact Finmap.lookup_erase_ne fun he => hk (he ▸ hk')

/-- Every element of a segment has its node. -/
theorem Segment.lookup (h : Segment m before l after) {e : K × V} (he : e ∈ l) :
    ∃ n, m.lookup e.1 = some n ∧ n.entry = e.2 := by
  induction l generalizing before with
  | nil => cases he
  | cons e' l ih =>
    rcases List.mem_cons.1 he with rfl | he
    · exact ⟨_, h.1, rfl⟩
    · exact ih h.2 he

theorem Segment.mem (h : Segment m before l after) {k : K} (hk : k ∈ l.map Prod.fst) : k ∈ m := by
  obtain ⟨e, he, rfl⟩ := List.mem_map.1 hk
  obtain ⟨n, hn, -⟩ := h.lookup he
  exact Finmap.mem_of_lookup_eq_some hn

/-- Redirecting the last node of a segment. -/
theorem Segment.setNext {e : K × V} (h : Segment m before (l ++ [e]) after)
    (hn : ((l ++ [e]).map Prod.fst).Nodup) (after' : Option K) :
    ∃ m', update m e.1 (fun n => { n with next := after' }) = some m' ∧
      Segment m' before (l ++ [e]) after' ∧
      (∀ k, k ∈ m' ↔ k ∈ m) ∧ ∀ k ≠ e.1, m'.lookup k = m.lookup k := by
  obtain ⟨h₁, h₂, -⟩ := segment_append.1 h
  have hm : e.1 ∈ m := Finmap.mem_of_lookup_eq_some h₂
  have hnl : e.1 ∉ l.map Prod.fst := by
    rw [List.map_append, List.nodup_append] at hn
    intro he
    exact hn.2.2 _ he _ (by simp) rfl
  refine ⟨_, by rw [update, h₂]; rfl, segment_append.2 ⟨h₁.insert_of_notMem _ hnl, ?_, trivial⟩,
    ?_, fun k hk => Finmap.lookup_insert_of_ne _ hk⟩
  · rw [Finmap.lookup_insert]
    rfl
  · intro k
    rw [Finmap.mem_insert]
    constructor
    · rintro (rfl | hk)
      · exact hm
      · exact hk
    · exact Or.inr

/-- Redirecting the first node of a segment. -/
theorem Segment.setPrevious {e : K × V} (h : Segment m before (e :: l) after)
    (hn : ((e :: l).map Prod.fst).Nodup) (before' : Option K) :
    ∃ m', update m e.1 (fun n => { n with previous := before' }) = some m' ∧
      Segment m' before' (e :: l) after ∧
      (∀ k, k ∈ m' ↔ k ∈ m) ∧ ∀ k ≠ e.1, m'.lookup k = m.lookup k := by
  obtain ⟨h₁, h₂⟩ := h
  have hm : e.1 ∈ m := Finmap.mem_of_lookup_eq_some h₁
  refine ⟨_, by rw [update, h₁]; rfl,
    ⟨by rw [Finmap.lookup_insert], h₂.insert_of_notMem _ (List.nodup_cons.1 hn).1⟩,
    ?_, fun k hk => Finmap.lookup_insert_of_ne _ hk⟩
  intro k
  rw [Finmap.mem_insert]
  constructor
  · rintro (rfl | hk)
    · exact hm
    · exact hk
  · exact Or.inr

end Linked

end ServiceLib
