import ServiceLib.HashMap
import ServiceLib.Runtime.Error

/-!
# `RotatingMap`: a sharded map with capacity reclamation

Follows `src/runtime/store/rotatingmap.rs`. A key lives in the shard its hash selects, in one of
two hash maps: new entries go to `current`, and a rotation moves everything into a fresh
`previous` whose capacity fits what is left. Every operation holds the shard's lock, so a run is
a sequence of critical sections; `rotate` is one critical section per shard.

The point of the component is that none of this can be observed: `Op.spec` is one ordinary
finite map, and `exec_refines` says that every operation answers as that map does.
-/

namespace ServiceLib

namespace RotatingMap

variable {K V : Type} [DecidableEq K]

/-- `usize::MAX` on a 64-bit target. -/
def usizeMax : ℕ := 2 ^ 64 - 1

/-- `usize::saturating_mul`. -/
def saturatingMul (a b : ℕ) : ℕ := min (a * b) usizeMax

def shrinkFactor : ℕ := 4

/-- `ROTATING_MAP_SHARDS`. -/
def shardCount : ℕ := 64

/-! ## One shard -/

/-- The two maps of a shard and the largest size a rotation has seen. -/
structure Maps (K V : Type) where
  current : HashMap K V
  previous : HashMap K V
  highWaterMark : ℕ

namespace Maps

def empty : Maps K V := ⟨∅, ∅, 0⟩

/-- `maps.current.get(key).or_else(|| maps.previous.get(key))` -/
def get (m : Maps K V) (key : K) : Option V := (m.current.lookup key).or (m.previous.lookup key)

def set (m : Maps K V) (key : K) (value : V) : Maps K V × RuntimeResult Unit :=
  if key ∈ m.current ∨ key ∈ m.previous then (m, .error .duplicateKey)
  else ({ m with current := m.current.insert key value }, .ok ())

/-- The factory runs only when the key is absent. -/
def getOrCreate (m : Maps K V) (key : K) (factory : Unit → V) : Maps K V × V × Bool :=
  match m.get key with
  | some value => (m, value, true)
  | none =>
    let value := factory ()
    ({ m with current := m.current.insert key value }, value, false)

def pop (m : Maps K V) (key : K) : Maps K V × Option V :=
  match m.current.lookup key with
  | some value => ({ m with current := m.current.erase key }, some value)
  | none => ({ m with previous := m.previous.erase key }, m.previous.lookup key)

/-- A key found in `current` is never looked up in `previous`, whatever the predicate says. -/
def popIf (m : Maps K V) (key : K) (predicate : V → Bool) : Maps K V × Option V :=
  match m.current.lookup key with
  | some value =>
    if predicate value then ({ m with current := m.current.erase key }, some value) else (m, none)
  | none =>
    match m.previous.lookup key with
    | some value =>
      if predicate value then ({ m with previous := m.previous.erase key }, some value)
      else (m, none)
    | none => (m, none)

/-- `maps.current.len() + maps.previous.len()` -/
def total (m : Maps K V) : ℕ := m.current.keys.card + m.previous.keys.card

/-- `rotate_shard`. The iteration order is the one `drain` happens to use. -/
def rotateShard (minCapacity : ℕ) (order : IterOrder K V) (m : Maps K V) : Maps K V :=
  let total := m.total
  let shouldRotate := m.highWaterMark = 0 ∨ saturatingMul total shrinkFactor < m.highWaterMark
  let mark := max m.highWaterMark total
  if mark < minCapacity then { m with highWaterMark := mark }
  else if ¬ shouldRotate then { m with highWaterMark := mark }
  else
    let fresh := insertAll ∅ (order.iter m.current)
    { current := ∅, previous := orInsertAll fresh (order.iter m.previous), highWaterMark := total }

/-- A key is bound in at most one of the two maps. -/
def Disjoint (m : Maps K V) : Prop := ∀ key, key ∈ m.current → key ∉ m.previous

/-! ### What each critical section does to the contents -/

theorem get_isSome {m : Maps K V} {key : K} :
    (m.get key).isSome ↔ key ∈ m.current ∨ key ∈ m.previous := by
  rw [get, Option.isSome_or, Bool.or_eq_true, Finmap.lookup_isSome, Finmap.lookup_isSome]

theorem get_insertCurrent (m : Maps K V) (key k : K) (value : V) :
    get { m with current := m.current.insert key value } k =
      if k = key then some value else m.get k := by
  by_cases hk : k = key
  · subst hk; simp [get, Finmap.lookup_insert]
  · simp [get, Finmap.lookup_insert_of_ne _ hk, hk]

theorem get_eraseCurrent {m : Maps K V} (hd : m.Disjoint) {key : K} (hkey : key ∈ m.current)
    (k : K) :
    get { m with current := m.current.erase key } k = if k = key then none else m.get k := by
  by_cases hk : k = key
  · subst hk
    simp [get, Finmap.lookup_erase, Finmap.lookup_eq_none.2 (hd k hkey)]
  · simp [get, Finmap.lookup_erase_ne hk, hk]

theorem get_erasePrevious {m : Maps K V} {key : K} (hkey : key ∉ m.current) (k : K) :
    get { m with previous := m.previous.erase key } k = if k = key then none else m.get k := by
  by_cases hk : k = key
  · subst hk
    simp [get, Finmap.lookup_erase, Finmap.lookup_eq_none.2 hkey]
  · simp [get, Finmap.lookup_erase_ne hk, hk]

theorem rotateShard_get (minCapacity : ℕ) (order : IterOrder K V) (m : Maps K V) (k : K) :
    (m.rotateShard minCapacity order).get k = m.get k := by
  simp only [rotateShard]
  split_ifs
  · rfl
  · simp only [get, Finmap.lookup_empty, Option.none_or, lookup_orInsertAll,
      lookup_insertAll _ _ (order.nodupKeys _), order.dlookup_iter, Option.or_none]
  · rfl

theorem rotateShard_disjoint (minCapacity : ℕ) (order : IterOrder K V) {m : Maps K V}
    (hd : m.Disjoint) : (m.rotateShard minCapacity order).Disjoint := by
  simp only [rotateShard]
  split_ifs
  · exact hd
  · intro key hkey
    exact absurd hkey Finmap.notMem_empty
  · exact hd

theorem disjoint_insertCurrent {m : Maps K V} (hd : m.Disjoint) {key : K}
    (hkey : key ∉ m.previous) (value : V) :
    Disjoint { m with current := m.current.insert key value } := by
  intro k hk
  rcases Finmap.mem_insert.1 hk with rfl | hk
  · exact hkey
  · exact hd k hk

theorem disjoint_eraseCurrent {m : Maps K V} (hd : m.Disjoint) (key : K) :
    Disjoint { m with current := m.current.erase key } :=
  fun k hk => hd k (Finmap.mem_erase.1 hk).2

theorem disjoint_erasePrevious {m : Maps K V} (hd : m.Disjoint) (key : K) :
    Disjoint { m with previous := m.previous.erase key } :=
  fun k hk hk' => hd k hk (Finmap.mem_erase.1 hk').2

end Maps

/-! ## The sharded map -/

end RotatingMap

/-- The shards of a `RotatingMap`; the lock of a shard is implicit in the critical sections. -/
structure RotatingMap (K V : Type) where
  shards : Fin RotatingMap.shardCount → RotatingMap.Maps K V

namespace RotatingMap

variable {K V : Type} [DecidableEq K]

/-- `RotatingMap::with_min_capacity`. -/
def new : RotatingMap K V := ⟨fun _ => Maps.empty⟩

/-- `hash as usize % self.inner.shards.len()` -/
def shard (hash : K → ℕ) (key : K) : Fin shardCount := ⟨hash key % shardCount, Nat.mod_lt _ (by decide)⟩

/-- Replace the maps of one shard. -/
def setShard (m : RotatingMap K V) (i : Fin shardCount) (maps : Maps K V) : RotatingMap K V :=
  ⟨Function.update m.shards i maps⟩

omit [DecidableEq K] in
@[simp] theorem setShard_shards_self (m : RotatingMap K V) (i : Fin shardCount)
    (maps : Maps K V) : (m.setShard i maps).shards i = maps :=
  Function.update_self ..

omit [DecidableEq K] in
theorem setShard_shards_ne (m : RotatingMap K V) {i j : Fin shardCount} (hj : j ≠ i)
    (maps : Maps K V) : (m.setShard i maps).shards j = m.shards j :=
  Function.update_of_ne hj ..

/-! ### The operations -/

def set (hash : K → ℕ) (m : RotatingMap K V) (key : K) (value : V) :
    RotatingMap K V × RuntimeResult Unit :=
  let i := shard hash key
  let (maps, r) := (m.shards i).set key value
  (m.setShard i maps, r)

def getOrCreate (hash : K → ℕ) (m : RotatingMap K V) (key : K) (factory : Unit → V) :
    RotatingMap K V × V × Bool :=
  let i := shard hash key
  let (maps, value, found) := (m.shards i).getOrCreate key factory
  (m.setShard i maps, value, found)

def get (hash : K → ℕ) (m : RotatingMap K V) (key : K) : Option V :=
  (m.shards (shard hash key)).get key

def pop (hash : K → ℕ) (m : RotatingMap K V) (key : K) : RotatingMap K V × Option V :=
  let i := shard hash key
  let (maps, v) := (m.shards i).pop key
  (m.setShard i maps, v)

def popIf (hash : K → ℕ) (m : RotatingMap K V) (key : K) (predicate : V → Bool) :
    RotatingMap K V × Option V :=
  let i := shard hash key
  let (maps, v) := (m.shards i).popIf key predicate
  (m.setShard i maps, v)

/-- The operations. `rotateShard` is one critical section of a concurrent `rotate`; `rotate` is
the whole loop with nothing in between. -/
inductive Op (K V : Type)
  | set (key : K) (value : V)
  | getOrCreate (key : K) (factory : Unit → V)
  | get (key : K)
  | pop (key : K)
  | popIf (key : K) (predicate : V → Bool)
  | rotateShard (i : Fin shardCount) (order : IterOrder K V)
  | rotate (orders : Fin shardCount → IterOrder K V)

/-- What a caller sees. -/
inductive Answer (V : Type)
  | result (r : RuntimeResult Unit)
  | created (value : V) (found : Bool)
  | value (v : Option V)
  | done

/-- `fn rotate`. -/
def rotate (minCapacity : ℕ) (orders : Fin shardCount → IterOrder K V) (m : RotatingMap K V) :
    RotatingMap K V :=
  (List.finRange shardCount).foldl
    (fun m i => m.setShard i ((m.shards i).rotateShard minCapacity (orders i))) m

/-- One operation on the sharded map. -/
def apply (hash : K → ℕ) (minCapacity : ℕ) (m : RotatingMap K V) :
    Op K V → RotatingMap K V × Answer V
  | .set key value =>
    let (m, r) := m.set hash key value
    (m, .result r)
  | .getOrCreate key factory =>
    let (m, value, found) := m.getOrCreate hash key factory
    (m, .created value found)
  | .get key => (m, .value (m.get hash key))
  | .pop key =>
    let (m, v) := m.pop hash key
    (m, .value v)
  | .popIf key predicate =>
    let (m, v) := m.popIf hash key predicate
    (m, .value v)
  | .rotateShard i order =>
    (m.setShard i ((m.shards i).rotateShard minCapacity order), .done)
  | .rotate orders => (m.rotate minCapacity orders, .done)

/-- A sequence of operations, with the answers in order. -/
def exec (hash : K → ℕ) (minCapacity : ℕ) (m : RotatingMap K V) :
    List (Op K V) → RotatingMap K V × List (Answer V)
  | [] => (m, [])
  | op :: ops =>
    let (m', a) := m.apply hash minCapacity op
    let (m'', as) := exec hash minCapacity m' ops
    (m'', a :: as)

/-! ## The abstract map -/

/-- The same operation on one ordinary finite map. Rotation is nothing at all. -/
def Op.spec (m : HashMap K V) : Op K V → HashMap K V × Answer V
  | .set key value =>
    if key ∈ m then (m, .result (.error .duplicateKey))
    else (m.insert key value, .result (.ok ()))
  | .getOrCreate key factory =>
    match m.lookup key with
    | some value => (m, .created value true)
    | none => (m.insert key (factory ()), .created (factory ()) false)
  | .get key => (m, .value (m.lookup key))
  | .pop key => (m.erase key, .value (m.lookup key))
  | .popIf key predicate =>
    match m.lookup key with
    | some value => if predicate value then (m.erase key, .value (some value)) else (m, .value none)
    | none => (m, .value none)
  | .rotateShard _ _ => (m, .done)
  | .rotate _ => (m, .done)

def specExec (m : HashMap K V) : List (Op K V) → HashMap K V × List (Answer V)
  | [] => (m, [])
  | op :: ops =>
    let (m', a) := op.spec m
    let (m'', as) := specExec m' ops
    (m'', a :: as)

/-! ## Refinement -/

/-- Every bound key sits in its own shard, in one of the two maps only. -/
structure WF (hash : K → ℕ) (m : RotatingMap K V) : Prop where
  own : ∀ i key, ((m.shards i).get key).isSome → i = shard hash key
  disjoint : ∀ i, (m.shards i).Disjoint

/-- The contents of the sharded map are those of `a`. -/
structure Refines (hash : K → ℕ) (m : RotatingMap K V) (a : HashMap K V) : Prop extends
    WF hash m where
  get : ∀ key, (m.shards (shard hash key)).get key = a.lookup key

theorem refines_new (hash : K → ℕ) : Refines hash (new : RotatingMap K V) ∅ where
  own := by
    intro i key h
    simp [new, Maps.empty, Maps.get] at h
  disjoint := fun i key h => absurd h Finmap.notMem_empty
  get := by
    intro key
    simp [new, Maps.empty, Maps.get]

/-- A critical section that keeps the contents of its shard is invisible. -/
theorem Refines.setShard_same {hash : K → ℕ} {m : RotatingMap K V} {a : HashMap K V}
    (h : Refines hash m a) (i : Fin shardCount) {maps : Maps K V} (hd : maps.Disjoint)
    (hget : ∀ k, maps.get k = (m.shards i).get k) : Refines hash (m.setShard i maps) a := by
  have hshard : ∀ j k, ((m.setShard i maps).shards j).get k = (m.shards j).get k := by
    intro j k
    by_cases hj : j = i
    · subst hj; rw [setShard_shards_self, hget]
    · rw [setShard_shards_ne _ hj]
  refine ⟨⟨fun j k hk => h.own j k (by rwa [hshard] at hk), fun j => ?_⟩, fun k => ?_⟩
  · by_cases hj : j = i
    · subst hj; rwa [setShard_shards_self]
    · rw [setShard_shards_ne _ hj]; exact h.disjoint j
  · rw [hshard, h.get]

/-- A critical section that rebinds `key` in its own shard rebinds it in the abstract map. -/
theorem Refines.setShard_key {hash : K → ℕ} {m : RotatingMap K V} {a a' : HashMap K V}
    (h : Refines hash m a) (key : K) {maps : Maps K V} (hd : maps.Disjoint) (o : Option V)
    (hget : ∀ k, maps.get k = if k = key then o else (m.shards (shard hash key)).get k)
    (ha : ∀ k, a'.lookup k = if k = key then o else a.lookup k) :
    Refines hash (m.setShard (shard hash key) maps) a' := by
  refine ⟨⟨fun j k hk => ?_, fun j => ?_⟩, fun k => ?_⟩
  · by_cases hj : j = shard hash key
    · subst hj
      rw [setShard_shards_self, hget] at hk
      by_cases hkey : k = key
      · rw [hkey]
      · rw [if_neg hkey] at hk
        exact h.own _ k hk
    · rw [setShard_shards_ne _ hj] at hk
      exact h.own j k hk
  · by_cases hj : j = shard hash key
    · subst hj; rwa [setShard_shards_self]
    · rw [setShard_shards_ne _ hj]; exact h.disjoint j
  · by_cases hj : shard hash k = shard hash key
    · rw [hj, setShard_shards_self, hget, ha, ← hj, h.get]
    · have hkey : k ≠ key := fun hc => hj (by rw [hc])
      rw [setShard_shards_ne _ hj, ha, if_neg hkey, h.get]

theorem lookup_insert_ite (a : HashMap K V) (key : K) (value : V) (k : K) :
    (a.insert key value).lookup k = if k = key then some value else a.lookup k := by
  by_cases hk : k = key
  · subst hk; rw [Finmap.lookup_insert, if_pos rfl]
  · rw [Finmap.lookup_insert_of_ne _ hk, if_neg hk]

theorem lookup_erase_ite (a : HashMap K V) (key k : K) :
    (a.erase key).lookup k = if k = key then none else a.lookup k := by
  by_cases hk : k = key
  · subst hk; rw [Finmap.lookup_erase, if_pos rfl]
  · rw [Finmap.lookup_erase_ne hk, if_neg hk]

theorem Refines.mem_iff {hash : K → ℕ} {m : RotatingMap K V} {a : HashMap K V}
    (h : Refines hash m a) (key : K) :
    key ∈ a ↔ key ∈ (m.shards (shard hash key)).current ∨
      key ∈ (m.shards (shard hash key)).previous := by
  rw [← Finmap.lookup_isSome, ← h.get, Maps.get_isSome]

/-- Inserting an absent key into `current`. -/
theorem Refines.insert {hash : K → ℕ} {m : RotatingMap K V} {a : HashMap K V}
    (h : Refines hash m a) {key : K} (hkey : key ∉ a) (value : V) :
    Refines hash (m.setShard (shard hash key)
      { m.shards (shard hash key) with
        current := (m.shards (shard hash key)).current.insert key value }) (a.insert key value) := by
  have hprev : key ∉ (m.shards (shard hash key)).previous :=
    fun hc => hkey ((h.mem_iff key).2 (Or.inr hc))
  exact h.setShard_key key (Maps.disjoint_insertCurrent (h.disjoint _) hprev value) (some value)
    (fun k => Maps.get_insertCurrent _ key k value) (lookup_insert_ite a key value)

/-- Removing a key from the map that holds it. -/
theorem Refines.eraseCurrent {hash : K → ℕ} {m : RotatingMap K V} {a : HashMap K V}
    (h : Refines hash m a) {key : K} (hkey : key ∈ (m.shards (shard hash key)).current) :
    Refines hash (m.setShard (shard hash key)
      { m.shards (shard hash key) with
        current := (m.shards (shard hash key)).current.erase key }) (a.erase key) :=
  h.setShard_key key (Maps.disjoint_eraseCurrent (h.disjoint _) key) none
    (fun k => Maps.get_eraseCurrent (h.disjoint _) hkey k) (lookup_erase_ite a key)

theorem Refines.erasePrevious {hash : K → ℕ} {m : RotatingMap K V} {a : HashMap K V}
    (h : Refines hash m a) {key : K} (hkey : key ∉ (m.shards (shard hash key)).current) :
    Refines hash (m.setShard (shard hash key)
      { m.shards (shard hash key) with
        previous := (m.shards (shard hash key)).previous.erase key }) (a.erase key) :=
  h.setShard_key key (Maps.disjoint_erasePrevious (h.disjoint _) key) none
    (fun k => Maps.get_erasePrevious hkey k) (lookup_erase_ite a key)

theorem Refines.setShard_self {hash : K → ℕ} {m : RotatingMap K V} {a : HashMap K V}
    (h : Refines hash m a) (i : Fin shardCount) : Refines hash (m.setShard i (m.shards i)) a :=
  h.setShard_same i (h.disjoint i) fun _ => rfl

/-! ### One operation -/

theorem Refines.set {hash : K → ℕ} {m : RotatingMap K V} {a : HashMap K V}
    (h : Refines hash m a) (key : K) (value : V) :
    (m.set hash key value).2 = (if key ∈ a then .error .duplicateKey else .ok ()) ∧
      Refines hash (m.set hash key value).1 (if key ∈ a then a else a.insert key value) := by
  simp only [RotatingMap.set, Maps.set, ← h.mem_iff]
  split_ifs with hkey
  · exact ⟨rfl, h.setShard_self _⟩
  · exact ⟨rfl, h.insert hkey value⟩

theorem Refines.pop {hash : K → ℕ} {m : RotatingMap K V} {a : HashMap K V}
    (h : Refines hash m a) (key : K) :
    (m.pop hash key).2 = a.lookup key ∧ Refines hash (m.pop hash key).1 (a.erase key) := by
  simp only [RotatingMap.pop, Maps.pop, ← h.get key, Maps.get]
  cases hc : (m.shards (shard hash key)).current.lookup key with
  | some value => exact ⟨rfl, h.eraseCurrent (Finmap.mem_of_lookup_eq_some hc)⟩
  | none => exact ⟨rfl, h.erasePrevious (Finmap.lookup_eq_none.1 hc)⟩

/-- What `pop_if` leaves of the abstract map. -/
def eraseIf (a : HashMap K V) (key : K) (predicate : V → Bool) : HashMap K V :=
  match a.lookup key with
  | some value => if predicate value then a.erase key else a
  | none => a

theorem Refines.popIf {hash : K → ℕ} {m : RotatingMap K V} {a : HashMap K V}
    (h : Refines hash m a) (key : K) (predicate : V → Bool) :
    (m.popIf hash key predicate).2 = (a.lookup key).filter predicate ∧
      Refines hash (m.popIf hash key predicate).1 (eraseIf a key predicate) := by
  simp only [RotatingMap.popIf, Maps.popIf, eraseIf, ← h.get key, Maps.get]
  cases hc : (m.shards (shard hash key)).current.lookup key with
  | some value =>
    simp only [Option.some_or, Option.filter_some]
    by_cases hv : predicate value = true
    · simp only [if_pos hv]
      exact ⟨trivial, h.eraseCurrent (Finmap.mem_of_lookup_eq_some hc)⟩
    · simp only [if_neg hv]
      exact ⟨trivial, h.setShard_self _⟩
  | none =>
    simp only [Option.none_or]
    cases hp : (m.shards (shard hash key)).previous.lookup key with
    | some value =>
      simp only [Option.filter_some]
      by_cases hv : predicate value = true
      · simp only [if_pos hv]
        exact ⟨trivial, h.erasePrevious (Finmap.lookup_eq_none.1 hc)⟩
      · simp only [if_neg hv]
        exact ⟨trivial, h.setShard_self _⟩
    | none => exact ⟨rfl, h.setShard_self _⟩

theorem Refines.rotateShard {hash : K → ℕ} {m : RotatingMap K V} {a : HashMap K V}
    (h : Refines hash m a) (minCapacity : ℕ) (i : Fin shardCount) (order : IterOrder K V) :
    Refines hash (m.setShard i ((m.shards i).rotateShard minCapacity order)) a :=
  h.setShard_same i (Maps.rotateShard_disjoint _ _ (h.disjoint i))
    fun k => Maps.rotateShard_get _ _ _ k

theorem Refines.rotate {hash : K → ℕ} {m : RotatingMap K V} {a : HashMap K V}
    (h : Refines hash m a) (minCapacity : ℕ) (orders : Fin shardCount → IterOrder K V) :
    Refines hash (m.rotate minCapacity orders) a := by
  unfold RotatingMap.rotate
  generalize List.finRange shardCount = is
  induction is generalizing m with
  | nil => exact h
  | cons i is ih => exact ih (h.rotateShard minCapacity i (orders i))

/-- **One operation.** It answers as the abstract map does and keeps the refinement. -/
theorem apply_refines {hash : K → ℕ} {minCapacity : ℕ} {m : RotatingMap K V} {a : HashMap K V}
    (h : Refines hash m a) (op : Op K V) :
    (m.apply hash minCapacity op).2 = (op.spec a).2 ∧
      Refines hash (m.apply hash minCapacity op).1 (op.spec a).1 := by
  cases op with
  | set key value =>
    obtain ⟨hans, href⟩ := h.set key value
    simp only [apply, Op.spec, hans]
    split_ifs at href ⊢
    · exact ⟨rfl, href⟩
    · exact ⟨rfl, href⟩
  | getOrCreate key factory =>
    simp only [apply, RotatingMap.getOrCreate, Maps.getOrCreate, Op.spec, h.get]
    cases hl : a.lookup key with
    | some value => exact ⟨rfl, h.setShard_self _⟩
    | none => exact ⟨rfl, h.insert (Finmap.lookup_eq_none.1 hl) (factory ())⟩
  | get key =>
    simp only [apply, RotatingMap.get, Op.spec, h.get]
    exact ⟨trivial, h⟩
  | pop key =>
    obtain ⟨hans, href⟩ := h.pop key
    exact ⟨congrArg Answer.value hans, href⟩
  | popIf key predicate =>
    obtain ⟨hans, href⟩ := h.popIf key predicate
    simp only [eraseIf] at href
    simp only [apply, Op.spec, hans]
    cases hl : a.lookup key with
    | none =>
      simp only [hl] at href
      exact ⟨rfl, href⟩
    | some value =>
      simp only [hl] at href
      simp only [Option.filter_some]
      split_ifs at href ⊢
      · exact ⟨rfl, href⟩
      · exact ⟨rfl, href⟩
  | rotateShard i order => exact ⟨rfl, h.rotateShard minCapacity i order⟩
  | rotate orders => exact ⟨rfl, h.rotate minCapacity orders⟩

/-- A whole run answers as the abstract map does. -/
theorem exec_refines {hash : K → ℕ} {minCapacity : ℕ} {m : RotatingMap K V} {a : HashMap K V}
    (h : Refines hash m a) (ops : List (Op K V)) :
    (m.exec hash minCapacity ops).2 = (specExec a ops).2 ∧
      Refines hash (m.exec hash minCapacity ops).1 (specExec a ops).1 := by
  induction ops generalizing m a with
  | nil => exact ⟨rfl, h⟩
  | cons op ops ih =>
    obtain ⟨hans, href⟩ := apply_refines h op
    obtain ⟨hans', href'⟩ := ih href
    exact ⟨by simp only [exec, specExec, hans, hans'], href'⟩

/-- A rotation, of one shard or of all of them. -/
def Op.IsRotation : Op K V → Prop
  | .rotateShard _ _ => True
  | .rotate _ => True
  | _ => False

/-- **`RotatingMap` is a finite map.** After any sequence of operations: a bound key is found in
the shard its hash selects and nowhere else, and there in exactly one of the two maps; every
answer was the abstract map's; and one more rotation changes no later answer. -/
theorem rotatingMap_refines (hash : K → ℕ) (minCapacity : ℕ) (ops : List (Op K V)) :
    let m := (new.exec hash minCapacity ops).1
    (∀ i key, key ∈ (m.shards i).current ∨ key ∈ (m.shards i).previous → i = shard hash key) ∧
    (∀ i key, ¬ (key ∈ (m.shards i).current ∧ key ∈ (m.shards i).previous)) ∧
    (∀ key, (m.shards (shard hash key)).get key = (specExec ∅ ops).1.lookup key) ∧
    (new.exec hash minCapacity ops).2 = (specExec ∅ ops).2 ∧
    ∀ (r : Op K V) (later : List (Op K V)), r.IsRotation →
      (m.exec hash minCapacity (r :: later)).2 =
        .done :: (m.exec hash minCapacity later).2 := by
  intro m
  obtain ⟨hans, href⟩ := exec_refines (refines_new hash) ops
  refine ⟨fun i key hk => href.own i key (Maps.get_isSome.2 hk),
    fun i key hk => href.disjoint i key hk.1 hk.2, href.get, hans, fun r later hr => ?_⟩
  have hspec : r.spec (specExec ∅ ops).1 = ((specExec ∅ ops).1, .done) := by
    cases r <;> first | rfl | exact hr.elim
  rw [(exec_refines href (r :: later)).1, (exec_refines href later).1, specExec, hspec]

/-- A key set before a rotation is found after it, and a second `set` is refused. -/
theorem rotatingMap_refines_set_rotate_get :
    (new.exec id 1 [.set 70 7, .rotate fun _ => default, .get 70, .set 70 8]).2 =
        [.result (.ok ()), .done, .value (some 7), .result (.error .duplicateKey)] ∧
      ((new.exec id 1 [.set 70 7]).1.exec id 1 [.rotateShard ⟨6, by decide⟩ default, .get 70]).2 =
        [.done, Answer.value (some 7)] := by
  refine ⟨(rotatingMap_refines id 1 _).2.2.2.1.trans rfl, ?_⟩
  exact ((rotatingMap_refines id 1 _).2.2.2.2 (.rotateShard ⟨6, by decide⟩ default) [.get 70] trivial).trans rfl

end RotatingMap

end ServiceLib
