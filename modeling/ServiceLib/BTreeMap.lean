import Mathlib

/-!
# Ordered maps

A Rust `BTreeMap` is a finite map that is iterated in key order, so its model is the list of its
bindings, strictly sorted by key. `insert` replaces the value of a key that is bound.
-/

namespace ServiceLib

/-- `std::collections::BTreeMap`. -/
structure BTreeMap (K V : Type) [LinearOrder K] where
  entries : List (K × V)
  sorted : entries.Pairwise fun a b => a.1 < b.1

namespace BTreeMap

variable {K V : Type} [LinearOrder K]

/-- `BTreeMap::new()`. -/
def new : BTreeMap K V := ⟨[], List.Pairwise.nil⟩

/-- `len()`. -/
def len (m : BTreeMap K V) : ℕ := m.entries.length

/-- `get(&key)`. -/
def get (m : BTreeMap K V) (k : K) : Option V := m.entries.lookup k

/-- `remove(&key)`, without the value. -/
def erase (m : BTreeMap K V) (k : K) : BTreeMap K V :=
  ⟨m.entries.filter fun e => e.1 ≠ k, m.sorted.filter _⟩

/-- Bindings are compared by their keys. -/
def keyLe (a b : K × V) : Prop := a.1 ≤ b.1

instance : DecidableRel (keyLe : K × V → K × V → Prop) :=
  fun a b => inferInstanceAs (Decidable (a.1 ≤ b.1))

instance : Std.Total (keyLe : K × V → K × V → Prop) := ⟨fun a b => le_total a.1 b.1⟩

instance : IsTrans (K × V) keyLe := ⟨fun _ _ _ => le_trans⟩

/-- Sorted bindings stay sorted when one with a new key is put in its place. -/
theorem sorted_orderedInsert {l : List (K × V)} (hl : l.Pairwise fun a b => a.1 < b.1)
    {x : K × V} (hx : ∀ e ∈ l, e.1 ≠ x.1) :
    (l.orderedInsert keyLe x).Pairwise fun a b => a.1 < b.1 := by
  have hle : (l.orderedInsert keyLe x).Pairwise keyLe :=
    List.Pairwise.orderedInsert x l (hl.imp fun h => le_of_lt h)
  have hne : (l.orderedInsert keyLe x).Pairwise fun a b => a.1 ≠ b.1 := by
    rw [(List.perm_orderedInsert keyLe x l).pairwise_iff fun h => Ne.symm h, List.pairwise_cons]
    exact ⟨fun e he => (hx e he).symm, hl.imp fun h => ne_of_lt h⟩
  exact (hle.and hne).imp fun ⟨h₁, h₂⟩ => lt_of_le_of_ne h₁ h₂

/-- `insert(key, value)`. -/
def insert (m : BTreeMap K V) (k : K) (v : V) : BTreeMap K V :=
  ⟨(m.erase k).entries.orderedInsert keyLe (k, v),
    sorted_orderedInsert (m.erase k).sorted fun e he => by simpa using (List.mem_filter.1 he).2⟩

/-- `pop_first()`. -/
def popFirst (m : BTreeMap K V) : Option ((K × V) × BTreeMap K V) :=
  match m with
  | ⟨[], _⟩ => none
  | ⟨e :: l, h⟩ => some (e, ⟨l, h.of_cons⟩)

theorem get_eq_some_iff {m : BTreeMap K V} {k : K} {v : V} :
    m.get k = some v ↔ (k, v) ∈ m.entries := by
  obtain ⟨l, hl⟩ := m
  rw [get]
  induction l with
  | nil => simp
  | cons e l ih =>
    have hne : ∀ x ∈ l, x.1 ≠ e.1 := fun x hx => (ne_of_lt (List.rel_of_pairwise_cons hl hx)).symm
    by_cases hk : k = e.1
    · subst hk
      simp only [List.lookup, beq_self_eq_true, Option.some.injEq, List.mem_cons]
      constructor
      · rintro rfl
        exact Or.inl rfl
      · rintro (h | h)
        · rw [← h]
        · exact (hne (e.1, v) h rfl).elim
    · have hb : (k == e.1) = false := by simpa using hk
      simp only [List.lookup, hb, List.mem_cons]
      rw [ih hl.of_cons]
      constructor
      · exact Or.inr
      · rintro (h | h)
        · exact absurd (congrArg Prod.fst h) hk
        · exact h

/-- Inserting a new key puts its binding in order. -/
theorem entries_insert_of_new {m : BTreeMap K V} {k : K} (v : V)
    (hk : ∀ e ∈ m.entries, e.1 ≠ k) :
    (m.insert k v).entries = m.entries.orderedInsert keyLe (k, v) := by
  have : m.entries.filter (fun e => e.1 ≠ k) = m.entries := by
    rw [List.filter_eq_self]
    intro e he
    simpa using hk e he
  simp only [insert, erase, this]

/-- Keys are bound once, so erasing one takes out one binding. -/
theorem entries_erase_middle {m : BTreeMap K V} {l₁ l₂ : List (K × V)} {e : K × V}
    (h : m.entries = l₁ ++ e :: l₂) : (m.erase e.1).entries = l₁ ++ l₂ := by
  have hs := m.sorted
  rw [h, List.pairwise_append, List.pairwise_cons] at hs
  obtain ⟨-, ⟨hlt₂, -⟩, hlt₁⟩ := hs
  have h₁ : l₁.filter (fun x => x.1 ≠ e.1) = l₁ := by
    rw [List.filter_eq_self]
    intro x hx
    simpa using ne_of_lt (hlt₁ x hx e (by simp))
  have h₂ : l₂.filter (fun x => x.1 ≠ e.1) = l₂ := by
    rw [List.filter_eq_self]
    intro x hx
    simpa using (ne_of_lt (hlt₂ x hx)).symm
  change m.entries.filter _ = _
  rw [h, List.filter_append, h₁, List.filter_cons_of_neg (by simp), h₂]

/-- What an insertion leaves: the new binding and those of the other keys. -/
theorem mem_insert {m : BTreeMap K V} {k : K} {v : V} {e : K × V} :
    e ∈ (m.insert k v).entries ↔ e = (k, v) ∨ e ∈ m.entries ∧ e.1 ≠ k := by
  show e ∈ (m.erase k).entries.orderedInsert keyLe (k, v) ↔ _
  rw [List.mem_orderedInsert]
  simp [erase]

theorem get_insert_self (m : BTreeMap K V) (k : K) (v : V) : (m.insert k v).get k = some v :=
  get_eq_some_iff.2 (mem_insert.2 (Or.inl rfl))

theorem nodup_entries (m : BTreeMap K V) : m.entries.Nodup :=
  m.sorted.imp fun h he => ne_of_lt h (congrArg Prod.fst he)

/-- Maps with the same bindings are equal. -/
theorem ext_mem {m m' : BTreeMap K V} (h : ∀ e, e ∈ m.entries ↔ e ∈ m'.entries) : m = m' := by
  have hperm : m.entries.Perm m'.entries :=
    (List.perm_ext_iff_of_nodup m.nodup_entries m'.nodup_entries).2 h
  have hentries : m.entries = m'.entries :=
    hperm.eq_of_pairwise (fun a b _ _ hab hba => (lt_asymm hab hba).elim) m.sorted m'.sorted
  cases m
  cases m'
  simpa using hentries

theorem erase_insert_self (m : BTreeMap K V) (k : K) (v : V) :
    (m.insert k v).erase k = m.erase k := by
  apply ext_mem
  intro e
  show e ∈ (m.insert k v).entries.filter _ ↔ e ∈ m.entries.filter _
  rw [List.mem_filter, List.mem_filter, mem_insert]
  constructor
  · intro ⟨h, hne⟩
    refine ⟨?_, hne⟩
    rcases h with rfl | h
    · simp at hne
    · exact h.1
  · intro ⟨h, hne⟩
    exact ⟨Or.inr ⟨h, by simpa using hne⟩, hne⟩

/-- Inserting under a key forgets only what was bound to it. -/
theorem insert_eq_insert_iff {m m' : BTreeMap K V} {k : K} {v v' : V} :
    m.insert k v = m'.insert k v' ↔ v = v' ∧ m.erase k = m'.erase k := by
  constructor
  · intro h
    have hget := get_insert_self m k v
    rw [h, get_insert_self, Option.some.injEq] at hget
    refine ⟨hget.symm, ?_⟩
    rw [← erase_insert_self m k v, h, erase_insert_self]
  · intro h
    obtain ⟨rfl, he⟩ := h
    simp only [insert, he]

end BTreeMap

end ServiceLib
