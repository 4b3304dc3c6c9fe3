import Mathlib

/-!
# Hash maps

A Rust `HashMap` is a finite map whose iteration order is unspecified, so its model is Mathlib's
`Finmap`: two maps with the same bindings are equal, and nothing can depend on the layout. Where
a program iterates, the order is an explicit argument, an `IterOrder`: any choice of an
enumeration of each map.
-/

namespace ServiceLib

/-- `std::collections::HashMap`. -/
abbrev HashMap (K V : Type) := Finmap fun _ : K => V

/-- One iteration order: every map is enumerated without loss or repetition. -/
structure IterOrder (K V : Type) where
  iter : HashMap K V → List (Σ _ : K, V)
  enumerates : ∀ m, (iter m : Multiset (Σ _ : K, V)) = m.entries

namespace IterOrder

variable {K V : Type} (o : IterOrder K V)

theorem nodupKeys (m : HashMap K V) : (o.iter m).NodupKeys := by
  rw [← Multiset.coe_nodupKeys, o.enumerates]
  exact m.nodupKeys

/-- The enumeration of a map binds what the map binds. -/
theorem dlookup_iter [DecidableEq K] (m : HashMap K V) (k : K) :
    (o.iter m).dlookup k = m.lookup k := by
  have hm : m = (⟨o.iter m, o.nodupKeys m⟩ : AList fun _ : K => V).toFinmap :=
    Finmap.ext (o.enumerates m).symm
  conv_rhs => rw [hm]
  rfl

theorem mem_iter [DecidableEq K] {m : HashMap K V} {k : K} {v : V} :
    ⟨k, v⟩ ∈ o.iter m ↔ m.lookup k = some v := by
  rw [← o.dlookup_iter m k]
  exact (List.mem_dlookup_iff (o.nodupKeys m)).symm

/-- Iteration orders exist. -/
noncomputable instance : Inhabited (IterOrder K V) :=
  ⟨⟨fun m => m.entries.toList, fun m => Multiset.coe_toList m.entries⟩⟩

end IterOrder

/-! ## The size of a map -/

section Size

variable {K V : Type} [DecidableEq K] {m : HashMap K V} {key : K}

theorem card_keys_insert (h : key ∉ m) (value : V) :
    (m.insert key value).keys = insert key m.keys ∧
      (m.insert key value).keys.card = m.keys.card + 1 := by
  have hkeys : (m.insert key value).keys = insert key m.keys := by
    ext k
    rw [Finmap.mem_keys, Finmap.mem_insert, Finset.mem_insert, Finmap.mem_keys]
  rw [hkeys, Finset.card_insert_of_notMem (mt Finmap.mem_keys.1 h)]
  exact ⟨rfl, rfl⟩

theorem card_keys_replace (h : key ∈ m) (value : V) :
    (m.insert key value).keys.card = m.keys.card := by
  congr 1
  ext k
  rw [Finmap.mem_keys, Finmap.mem_insert, Finmap.mem_keys]
  constructor
  · rintro (rfl | hk)
    · exact h
    · exact hk
  · exact Or.inr

theorem card_keys_erase (h : key ∈ m) : (m.erase key).keys.card + 1 = m.keys.card := by
  rw [Finmap.keys_erase]
  exact Finset.card_erase_add_one (Finmap.mem_keys.mpr h)

end Size

/-! ## Searching a map -/

theorem foldl_or_eq_any {α : Type} (f : α → Bool) (l : List α) (b : Bool) :
    l.foldl (fun x e => x || f e) b = (b || l.any f) := by
  induction l generalizing b with
  | nil => simp
  | cons e l ih => rw [List.foldl_cons, ih, List.any_cons, Bool.or_assoc]

theorem finmap_any_eq_true {K V : Type} [DecidableEq K] {m : HashMap K V} {f : K → V → Bool} :
    m.any f = true ↔ ∃ k v, m.lookup k = some v ∧ f k v = true := by
  induction m using Finmap.induction_on with
  | H a =>
    have hany : Finmap.any f a.toFinmap = a.entries.any fun e => f e.1 e.2 := by
      change a.entries.foldl (fun x e => x || f e.1 e.2) false = _
      rw [foldl_or_eq_any, Bool.false_or]
    rw [hany, List.any_eq_true]
    constructor
    · rintro ⟨e, he, hf⟩
      exact ⟨e.1, e.2, (List.mem_dlookup_iff a.nodupKeys).2 he, hf⟩
    · rintro ⟨k, v, hkv, hf⟩
      exact ⟨⟨k, v⟩, (List.mem_dlookup_iff a.nodupKeys).1 hkv, hf⟩

/-! ## Maps keyed by a field of their values -/

section Keyed

variable {K V : Type} [DecidableEq K] {keyOf : V → K}

/-- The map holds the values of the list, each under its own key, and no two of them have the same
key. -/
structure Keyed (keyOf : V → K) (m : HashMap K V) (l : List V) : Prop where
  lookup : ∀ k v, m.lookup k = some v ↔ v ∈ l ∧ keyOf v = k
  nodup : (l.map keyOf).Nodup

theorem keyed_empty : Keyed keyOf ∅ [] where
  lookup := fun k v => by simp
  nodup := List.nodup_nil

/-- Inserting a value under a new key. -/
theorem Keyed.insert {m : HashMap K V} {l : List V} {v : V} (h : Keyed keyOf m l)
    (hv : keyOf v ∉ m) : Keyed keyOf (m.insert (keyOf v) v) (l ++ [v]) where
  lookup := by
    intro k w
    by_cases hk : k = keyOf v
    · subst hk
      rw [Finmap.lookup_insert, Option.some.injEq, List.mem_append, List.mem_singleton]
      constructor
      · rintro rfl
        exact ⟨.inr rfl, rfl⟩
      · rintro ⟨hw | rfl, hkey⟩
        · exact absurd (Finmap.mem_of_lookup_eq_some ((h.lookup _ w).2 ⟨hw, hkey⟩)) hv
        · rfl
    · rw [Finmap.lookup_insert_of_ne _ hk, h.lookup, List.mem_append, List.mem_singleton]
      constructor
      · exact fun hw => ⟨.inl hw.1, hw.2⟩
      · rintro ⟨hw | rfl, hkey⟩
        · exact ⟨hw, hkey⟩
        · exact absurd hkey.symm hk
  nodup := by
    rw [List.map_append, List.map_singleton, ← List.concat_eq_append]
    refine List.Nodup.concat (fun hmem => ?_) h.nodup
    obtain ⟨w, hw, hkey⟩ := List.mem_map.1 hmem
    exact hv (Finmap.mem_of_lookup_eq_some ((h.lookup _ w).2 ⟨hw, hkey⟩))

end Keyed

/-! ## Draining one map into another -/

section Drain

variable {K V : Type} [DecidableEq K]

/-- `for (key, value) in l { fresh.insert(key, value); }` -/
def insertAll (fresh : HashMap K V) (l : List (Σ _ : K, V)) : HashMap K V :=
  l.foldl (fun m e => m.insert e.1 e.2) fresh

/-- `for (key, value) in l { fresh.entry(key).or_insert(value); }` -/
def orInsertAll (fresh : HashMap K V) (l : List (Σ _ : K, V)) : HashMap K V :=
  l.foldl (fun m e => if e.1 ∈ m then m else m.insert e.1 e.2) fresh

theorem lookup_insertAll (fresh : HashMap K V) (l : List (Σ _ : K, V)) (hl : l.NodupKeys)
    (k : K) : (insertAll fresh l).lookup k = (l.dlookup k).or (fresh.lookup k) := by
  induction l generalizing fresh with
  | nil => simp [insertAll]
  | cons e l ih =>
    obtain ⟨a, v⟩ := e
    have hl' := List.nodupKeys_cons.1 hl
    rw [insertAll, List.foldl_cons]
    have ih' := ih (fresh.insert a v) hl'.2
    rw [insertAll] at ih'
    rw [ih']
    by_cases hk : k = a
    · subst hk
      rw [List.dlookup_cons_eq, List.dlookup_eq_none.2 hl'.1, Finmap.lookup_insert]
      rfl
    · rw [List.dlookup_cons_ne _ _ hk, Finmap.lookup_insert_of_ne _ hk]

theorem lookup_orInsertAll (fresh : HashMap K V) (l : List (Σ _ : K, V)) (k : K) :
    (orInsertAll fresh l).lookup k = (fresh.lookup k).or (l.dlookup k) := by
  induction l generalizing fresh with
  | nil => simp [orInsertAll]
  | cons e l ih =>
    obtain ⟨a, v⟩ := e
    rw [orInsertAll, List.foldl_cons]
    have ih' := ih (if a ∈ fresh then fresh else fresh.insert a v)
    rw [orInsertAll] at ih'
    rw [ih']
    by_cases hk : k = a
    · subst hk
      rw [List.dlookup_cons_eq]
      split_ifs with hmem
      · obtain ⟨w, hw⟩ := Finmap.mem_iff.1 hmem
        simp [hw]
      · simp [Finmap.lookup_insert, Finmap.lookup_eq_none.2 hmem]
    · rw [List.dlookup_cons_ne _ _ hk]
      split_ifs
      · rfl
      · rw [Finmap.lookup_insert_of_ne _ hk]

end Drain

end ServiceLib
