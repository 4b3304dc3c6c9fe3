import ServiceLib.Store.RotatingMap
import ServiceLib.Transition

/-!
# What a rotation keeps of the bucket capacity

`RotatingMap` exists to give bucket memory back after a shard was large for a while. Here each
hash map carries its capacity: an insertion may grow it and nothing shrinks it, `drain` leaves it
alone, and `with_capacity(n)` makes a table fit for `n` entries. `forget` drops the capacities and
gives back the map of `ServiceLib.Store.RotatingMap`.

**Theorem (`rotation_retains`).** After a rotation the two maps of the shard together keep at least
the capacity for the most entries that `current` has ever held, and at most that and what the
entries of the shard need. So the retained capacity is bounded by a constant factor of the entries
exactly if the past of `current` is.

The idea: a rotation replaces `previous`, whose capacity is then the one asked for, but it drains
`current` in place. The table of `current` is the same one from the first insertion on, and its
capacity is that of its largest moment.
-/

namespace ServiceLib

namespace RotatingMap

variable {K V : Type} [DecidableEq K]

/-! ## Hash maps with a capacity -/

/-- A `HashMap` with the capacity of its bucket array. -/
structure CapMap (K V : Type) where
  entries : HashMap K V
  capacity : ℕ

namespace CapMap

/-- `HashMap::new()` -/
def new : CapMap K V := ⟨∅, 0⟩

def len (m : CapMap K V) : ℕ := m.entries.keys.card

/-- `insert`, which leaves the table with the capacity `grown`. -/
def insert (m : CapMap K V) (key : K) (value : V) (grown : ℕ) : CapMap K V :=
  ⟨m.entries.insert key value, grown⟩

def remove (m : CapMap K V) (key : K) : CapMap K V := ⟨m.entries.erase key, m.capacity⟩

/-- `drain()`, taken to its end. -/
def drain (m : CapMap K V) : CapMap K V := ⟨∅, m.capacity⟩

/-- The capacities an insertion may leave: room for all entries, no less than before, and either
no growth or growth to what a factor of the entries needs. -/
def Grown (factor : ℕ) (m : CapMap K V) (key : K) (value : V) (grown : ℕ) : Prop :=
  (m.insert key value grown).len ≤ grown ∧ m.capacity ≤ grown ∧
    (grown = m.capacity ∨ grown ≤ factor * (m.insert key value grown).len)

instance (factor : ℕ) (m : CapMap K V) (key : K) (value : V) (grown : ℕ) :
    Decidable (m.Grown factor key value grown) :=
  inferInstanceAs (Decidable (_ ∧ _ ∧ (_ ∨ _)))

end CapMap

/-- The capacities of `with_capacity(n)`. -/
def Fit (factor n capacity : ℕ) : Prop := n ≤ capacity ∧ capacity ≤ factor * n

instance (factor n capacity : ℕ) : Decidable (Fit factor n capacity) :=
  inferInstanceAs (Decidable (_ ∧ _))

/-! ## One shard -/

/-- The maps of a shard with their capacities. `peak` is no field of the code: the most entries
that an insertion has left in `current`. -/
structure CapMaps (K V : Type) where
  current : CapMap K V
  previous : CapMap K V
  highWaterMark : ℕ
  peak : ℕ

namespace CapMaps

def empty : CapMaps K V := ⟨.new, .new, 0, 0⟩

/-- The shard without capacities. -/
def forget (m : CapMaps K V) : Maps K V := ⟨m.current.entries, m.previous.entries, m.highWaterMark⟩

/-- `maps.current.insert(key, value)`; `none`: no table grows like that. -/
def insertCurrent (factor : ℕ) (m : CapMaps K V) (key : K) (value : V) (grown : ℕ) :
    Option (CapMaps K V) :=
  if m.current.Grown factor key value grown then
    some { m with
      current := m.current.insert key value grown
      peak := max m.peak (m.current.insert key value grown).len }
  else none

def set (factor : ℕ) (m : CapMaps K V) (key : K) (value : V) (grown : ℕ) : Option (CapMaps K V) :=
  if key ∈ m.current.entries ∨ key ∈ m.previous.entries then some m
  else m.insertCurrent factor key value grown

def getOrCreate (factor : ℕ) (m : CapMaps K V) (key : K) (factory : Unit → V) (grown : ℕ) :
    Option (CapMaps K V) :=
  match m.forget.get key with
  | some _ => some m
  | none => m.insertCurrent factor key (factory ()) grown

def pop (m : CapMaps K V) (key : K) : CapMaps K V :=
  match m.current.entries.lookup key with
  | some _ => { m with current := m.current.remove key }
  | none => { m with previous := m.previous.remove key }

def popIf (m : CapMaps K V) (key : K) (predicate : V → Bool) : CapMaps K V :=
  match m.current.entries.lookup key with
  | some value => if predicate value then { m with current := m.current.remove key } else m
  | none =>
    match m.previous.entries.lookup key with
    | some value => if predicate value then { m with previous := m.previous.remove key } else m
    | none => m

def total (m : CapMaps K V) : ℕ := m.current.len + m.previous.len

/-- `rotate_shard` goes past its two early returns. -/
def Rotates (minCapacity : ℕ) (m : CapMaps K V) : Prop :=
  minCapacity ≤ max m.highWaterMark m.total ∧
    (m.highWaterMark = 0 ∨ saturatingMul m.total shrinkFactor < m.highWaterMark)

instance (minCapacity : ℕ) (m : CapMaps K V) : Decidable (m.Rotates minCapacity) :=
  inferInstanceAs (Decidable (_ ∧ (_ ∨ _)))

/-- `rotate_shard`, where `HashMap::with_capacity(total)` has the capacity `fit`. The new table has
room for all entries, so filling it does not grow it. -/
def rotateShard (factor minCapacity : ℕ) (order : IterOrder K V) (m : CapMaps K V) (fit : ℕ) :
    Option (CapMaps K V) :=
  if m.Rotates minCapacity then
    if Fit factor m.total fit then
      some {
        current := m.current.drain
        previous := ⟨orInsertAll (insertAll ∅ (order.iter m.current.entries))
          (order.iter m.previous.entries), fit⟩
        highWaterMark := m.total
        peak := m.peak }
    else none
  else some { m with highWaterMark := max m.highWaterMark m.total }

/-- The capacity the two maps of the shard keep together. -/
def retained (m : CapMaps K V) : ℕ := m.current.capacity + m.previous.capacity

/-! ### The capacities follow the map -/

theorem forget_set {factor : ℕ} {m m' : CapMaps K V} {key : K} {value : V} {grown : ℕ}
    (h : m.set factor key value grown = some m') : m'.forget = (m.forget.set key value).1 := by
  simp only [set, insertCurrent] at h
  simp only [Maps.set]
  split_ifs at h with hkey
  · rw [if_pos (show key ∈ m.forget.current ∨ key ∈ m.forget.previous from hkey)]
    cases h
    rfl
  · rw [if_neg (show ¬ (key ∈ m.forget.current ∨ key ∈ m.forget.previous) from hkey)]
    cases h
    rfl

theorem forget_getOrCreate {factor : ℕ} {m m' : CapMaps K V} {key : K} {factory : Unit → V}
    {grown : ℕ} (h : m.getOrCreate factor key factory grown = some m') :
    m'.forget = (m.forget.getOrCreate key factory).1 := by
  simp only [getOrCreate, insertCurrent] at h
  simp only [Maps.getOrCreate]
  cases hget : m.forget.get key with
  | some value =>
    rw [hget] at h
    cases h
    rfl
  | none =>
    rw [hget] at h
    dsimp only at h
    split_ifs at h
    cases h
    rfl

theorem forget_pop (m : CapMaps K V) (key : K) :
    (m.pop key).forget = (m.forget.pop key).1 := by
  simp only [pop, Maps.pop]
  change _ = (match m.current.entries.lookup key with | some _ => _ | none => _ : _ × _).1
  cases m.current.entries.lookup key <;> rfl

theorem forget_popIf (m : CapMaps K V) (key : K) (predicate : V → Bool) :
    (m.popIf key predicate).forget = (m.forget.popIf key predicate).1 := by
  have hcur : m.forget.current = m.current.entries := rfl
  have hprev : m.forget.previous = m.previous.entries := rfl
  simp only [popIf, Maps.popIf, hcur, hprev]
  cases m.current.entries.lookup key with
  | some value =>
    dsimp only
    split_ifs <;> rfl
  | none =>
    dsimp only
    cases m.previous.entries.lookup key with
    | some value =>
      dsimp only
      split_ifs <;> rfl
    | none => rfl

theorem forget_rotateShard {factor minCapacity : ℕ} {order : IterOrder K V} {m m' : CapMaps K V}
    {fit : ℕ} (h : m.rotateShard factor minCapacity order fit = some m') :
    m'.forget = m.forget.rotateShard minCapacity order := by
  have htotal : m.forget.total = m.total := rfl
  have hmark : m.forget.highWaterMark = m.highWaterMark := rfl
  simp only [rotateShard] at h
  simp only [Maps.rotateShard, htotal, hmark]
  by_cases hrot : m.Rotates minCapacity
  · rw [if_pos hrot] at h
    rw [if_neg (by have := hrot.1; omega), if_neg (not_not.2 hrot.2)]
    split_ifs at h
    cases h
    rfl
  · rw [if_neg hrot] at h
    cases h
    by_cases hmin : max m.highWaterMark m.total < minCapacity
    · rw [if_pos hmin]
      rfl
    · rw [if_neg hmin, if_pos fun hshould => hrot ⟨Nat.le_of_not_lt hmin, hshould⟩]
      rfl

/-! ### How the capacity of `current` moves -/

/-- The table of `current` has room for the most entries it has held, and was never asked for
more. -/
def Sized (factor : ℕ) (m : CapMaps K V) : Prop :=
  m.peak ≤ m.current.capacity ∧ m.current.capacity ≤ factor * m.peak

omit [DecidableEq K] in
theorem sized_empty (factor : ℕ) : (empty : CapMaps K V).Sized factor := ⟨le_rfl, Nat.zero_le _⟩

omit [DecidableEq K] in
/-- What leaves the capacity and the peak of `current` alone keeps `Sized`. -/
theorem Sized.congr {factor : ℕ} {m m' : CapMaps K V} (h : m.Sized factor)
    (hcapacity : m'.current.capacity = m.current.capacity) (hpeak : m'.peak = m.peak) :
    m'.Sized factor := by
  rw [Sized, hcapacity, hpeak]
  exact h

theorem Sized.insertCurrent {factor : ℕ} {m m' : CapMaps K V} {key : K} {value : V} {grown : ℕ}
    (h : m.Sized factor) (hins : m.insertCurrent factor key value grown = some m') :
    m'.Sized factor := by
  simp only [CapMaps.insertCurrent] at hins
  split_ifs at hins with hgrown
  cases hins
  obtain ⟨hroom, hkeep, hhow⟩ := hgrown
  refine ⟨max_le (h.1.trans hkeep) hroom, ?_⟩
  -- either the table of before is still there, or it has grown for the entries of now
  rcases hhow with hsame | hnew
  · calc grown = m.current.capacity := hsame
      _ ≤ factor * m.peak := h.2
      _ ≤ factor * max m.peak _ := Nat.mul_le_mul_left _ (le_max_left _ _)
  · exact hnew.trans (Nat.mul_le_mul_left _ (le_max_right _ _))

theorem Sized.set {factor : ℕ} {m m' : CapMaps K V} {key : K} {value : V} {grown : ℕ}
    (h : m.Sized factor) (hset : m.set factor key value grown = some m') : m'.Sized factor := by
  simp only [CapMaps.set] at hset
  split_ifs at hset
  · cases hset
    exact h
  · exact h.insertCurrent hset

theorem Sized.getOrCreate {factor : ℕ} {m m' : CapMaps K V} {key : K} {factory : Unit → V}
    {grown : ℕ} (h : m.Sized factor) (hget : m.getOrCreate factor key factory grown = some m') :
    m'.Sized factor := by
  simp only [CapMaps.getOrCreate] at hget
  split at hget
  · cases hget
    exact h
  · exact h.insertCurrent hget

theorem Sized.pop {factor : ℕ} {m : CapMaps K V} (h : m.Sized factor) (key : K) :
    (m.pop key).Sized factor := by
  simp only [CapMaps.pop]
  split <;> exact h.congr rfl rfl

theorem Sized.popIf {factor : ℕ} {m : CapMaps K V} (h : m.Sized factor) (key : K)
    (predicate : V → Bool) : (m.popIf key predicate).Sized factor := by
  simp only [CapMaps.popIf]
  split
  · split_ifs <;> exact h.congr rfl rfl
  · split
    · split_ifs <;> exact h.congr rfl rfl
    · exact h

theorem Sized.rotateShard {factor minCapacity : ℕ} {order : IterOrder K V} {m m' : CapMaps K V}
    {fit : ℕ} (h : m.Sized factor) (hrot : m.rotateShard factor minCapacity order fit = some m') :
    m'.Sized factor := by
  simp only [CapMaps.rotateShard] at hrot
  split_ifs at hrot
  · cases hrot
    exact h.congr rfl rfl
  · cases hrot
    exact h.congr rfl rfl

/-- A rotation that goes through: `current` keeps its table, `previous` gets one for `total`. -/
theorem rotateShard_retained {factor minCapacity : ℕ} {order : IterOrder K V} {m m' : CapMaps K V}
    {fit : ℕ} (h : m.rotateShard factor minCapacity order fit = some m')
    (hrot : m.Rotates minCapacity) :
    Fit factor m.total fit ∧ m'.retained = m.current.capacity + fit := by
  simp only [CapMaps.rotateShard, if_pos hrot] at h
  split_ifs at h with hfit
  cases h
  exact ⟨hfit, rfl⟩

end CapMaps

/-! ## The sharded map -/

/-- The operations of `Op`, each with the capacity it leaves. A `rotate` is one `rotateShard` per
shard. -/
inductive CapOp (K V : Type)
  | set (key : K) (value : V) (grown : ℕ)
  | getOrCreate (key : K) (factory : Unit → V) (grown : ℕ)
  | get (key : K)
  | pop (key : K)
  | popIf (key : K) (predicate : V → Bool)
  | rotateShard (i : Fin shardCount) (order : IterOrder K V) (fit : ℕ)

/-- The operation without capacities. -/
def CapOp.forget : CapOp K V → Op K V
  | .set key value _ => .set key value
  | .getOrCreate key factory _ => .getOrCreate key factory
  | .get key => .get key
  | .pop key => .pop key
  | .popIf key predicate => .popIf key predicate
  | .rotateShard i order _ => .rotateShard i order

/-- The shards with their capacities. -/
abbrev CapShards (K V : Type) := Fin shardCount → CapMaps K V

def CapShards.forget (s : CapShards K V) : RotatingMap K V := ⟨fun i => (s i).forget⟩

section Runs

variable (hash : K → ℕ) (factor minCapacity : ℕ)

/-- `RotatingMap` with the capacities of its tables; `factor` is how much room the allocator gives
for an entry. -/
def capacities : System (CapShards K V) (CapOp K V) where
  init := fun _ => CapMaps.empty
  step s
    | .set key value grown =>
      ((s (shard hash key)).set factor key value grown).map (Function.update s (shard hash key))
    | .getOrCreate key factory grown =>
      ((s (shard hash key)).getOrCreate factor key factory grown).map
        (Function.update s (shard hash key))
    | .get _ => some s
    | .pop key =>
      some (Function.update s (shard hash key) ((s (shard hash key)).pop key))
    | .popIf key predicate =>
      some (Function.update s (shard hash key) ((s (shard hash key)).popIf key predicate))
    | .rotateShard i order fit =>
      ((s i).rotateShard factor minCapacity order fit).map (Function.update s i)

variable {hash factor minCapacity}

omit [DecidableEq K] in
theorem forget_update (s : CapShards K V) (i : Fin shardCount) (m : CapMaps K V) :
    CapShards.forget (Function.update s i m) = (CapShards.forget s).setShard i m.forget := by
  simp only [CapShards.forget, setShard]
  congr 1
  funext j
  by_cases hj : j = i
  · subst hj
    rw [Function.update_self, Function.update_self]
  · rw [Function.update_of_ne hj, Function.update_of_ne hj]

/-- **The capacities follow the map.** Without them, a step is the operation of `RotatingMap`. -/
theorem step_forget {s t : CapShards K V} {op : CapOp K V}
    (h : (capacities hash factor minCapacity).step s op = some t) :
    CapShards.forget t = ((CapShards.forget s).apply hash minCapacity op.forget).1 := by
  cases op with
  | set key value grown =>
    obtain ⟨m, hm, rfl⟩ := Option.map_eq_some_iff.1 h
    rw [forget_update, CapMaps.forget_set hm]
    rfl
  | getOrCreate key factory grown =>
    obtain ⟨m, hm, rfl⟩ := Option.map_eq_some_iff.1 h
    rw [forget_update, CapMaps.forget_getOrCreate hm]
    rfl
  | get key =>
    cases h
    rfl
  | pop key =>
    cases h
    rw [forget_update, CapMaps.forget_pop]
    rfl
  | popIf key predicate =>
    cases h
    rw [forget_update, CapMaps.forget_popIf]
    rfl
  | rotateShard i order fit =>
    obtain ⟨m, hm, rfl⟩ := Option.map_eq_some_iff.1 h
    rw [forget_update, CapMaps.forget_rotateShard hm]
    rfl

omit [DecidableEq K] in
/-- Replacing one shard by a sized one. -/
theorem sized_update {s : CapShards K V} {i : Fin shardCount} {m : CapMaps K V}
    (h : ∀ j, (s j).Sized factor) (hm : m.Sized factor) (j : Fin shardCount) :
    (Function.update s i m j).Sized factor := by
  by_cases hj : j = i
  · subst hj
    rw [Function.update_self]
    exact hm
  · rw [Function.update_of_ne hj]
    exact h j

theorem step_sized {s t : CapShards K V} {op : CapOp K V} (hs : ∀ j, (s j).Sized factor)
    (h : (capacities hash factor minCapacity).step s op = some t) (j : Fin shardCount) :
    (t j).Sized factor := by
  cases op with
  | set key value grown =>
    obtain ⟨m, hm, rfl⟩ := Option.map_eq_some_iff.1 h
    exact sized_update hs ((hs _).set hm) j
  | getOrCreate key factory grown =>
    obtain ⟨m, hm, rfl⟩ := Option.map_eq_some_iff.1 h
    exact sized_update hs ((hs _).getOrCreate hm) j
  | get key =>
    cases h
    exact hs j
  | pop key =>
    cases h
    exact sized_update hs ((hs _).pop key) j
  | popIf key predicate =>
    cases h
    exact sized_update hs ((hs _).popIf key predicate) j
  | rotateShard i order fit =>
    obtain ⟨m, hm, rfl⟩ := Option.map_eq_some_iff.1 h
    exact sized_update hs ((hs _).rotateShard hm) j

theorem reachable_sized {s : CapShards K V} (h : (capacities hash factor minCapacity).Reachable s)
    (j : Fin shardCount) : (s j).Sized factor :=
  h.invariant (I := fun s => ∀ j, (s j).Sized factor) (fun _ => CapMaps.sized_empty factor)
    (fun _ _ _ hs hstep => step_sized hs hstep) j

variable (hash factor minCapacity) in
/-- A rotation of the shard `i` that goes through, in a run whose steps are all `allowed`. -/
structure Rotation (allowed : CapShards K V → CapOp K V → Prop) (i : Fin shardCount)
    (s t : CapShards K V) : Prop where
  reached : (capacities hash factor minCapacity).Reach allowed s
  rotates : (s i).Rotates minCapacity
  step : ∃ order fit, allowed s (.rotateShard i order fit) ∧
    (capacities hash factor minCapacity).step s (.rotateShard i order fit) = some t

/-- What a rotation keeps: the table of `current`, for the most entries it has held, and a table
for the entries there are. -/
theorem Rotation.retained {allowed : CapShards K V → CapOp K V → Prop} {i : Fin shardCount}
    {s t : CapShards K V} (h : Rotation hash factor minCapacity allowed i s t) :
    (s i).peak ≤ (t i).retained ∧ (t i).retained ≤ factor * ((s i).peak + (s i).total) := by
  obtain ⟨order, fit, -, hstep⟩ := h.step
  obtain ⟨m, hm, rfl⟩ := Option.map_eq_some_iff.1 hstep
  obtain ⟨hfit, hretained⟩ := CapMaps.rotateShard_retained hm h.rotates
  have hsized := reachable_sized h.reached.reachable i
  rw [Function.update_self, hretained, Nat.mul_add]
  exact ⟨hsized.1.trans (Nat.le_add_right _ _), Nat.add_le_add hsized.2 hfit.2⟩

/-- **When a rotation reclaims.** Whatever operations a run may consist of: its rotations keep no
more than a constant factor of the entries there are if and only if they find a `current` that has
never held more than a constant factor of them. -/
theorem rotation_retains (allowed : CapShards K V → CapOp K V → Prop) :
    (∃ constant, ∀ i s t, Rotation hash factor minCapacity allowed i s t →
        (t i).retained ≤ constant * (s i).total) ↔
      ∃ constant, ∀ i s t, Rotation hash factor minCapacity allowed i s t →
        (s i).peak ≤ constant * (s i).total := by
  constructor
  · rintro ⟨constant, hbound⟩
    exact ⟨constant, fun i s t h => h.retained.1.trans (hbound i s t h)⟩
  · rintro ⟨constant, hbound⟩
    refine ⟨factor * (constant + 1), fun i s t h => ?_⟩
    calc (t i).retained ≤ factor * ((s i).peak + (s i).total) := h.retained.2
      _ ≤ factor * (constant * (s i).total + (s i).total) :=
        Nat.mul_le_mul_left _ (Nat.add_le_add_right (hbound i s t h) _)
      _ = factor * (constant + 1) * (s i).total := by ring

end Runs

/-! ### A shard that was large once -/

section LargeOnce

/-- A rotation moves every key to `previous`. -/
theorem keys_drained (order : IterOrder K V) (m : HashMap K V) :
    (orInsertAll (insertAll ∅ (order.iter m)) (order.iter ∅)).keys = m.keys := by
  ext k
  rw [Finmap.mem_keys, Finmap.mem_keys, ← Finmap.lookup_isSome, ← Finmap.lookup_isSome,
    lookup_orInsertAll, lookup_insertAll _ _ (order.nodupKeys _), order.dlookup_iter,
    order.dlookup_iter, Finmap.lookup_empty, Option.or_none, Option.or_none]

/-- The shard of the keys below. -/
def first : Fin shardCount := ⟨0, by decide⟩

/-- The first `n` keys whose hash selects the shard `first`. -/
def keysUpTo (n : ℕ) : Finset ℕ := (Finset.range n).image (shardCount * ·)

theorem mem_keysUpTo {n j : ℕ} : shardCount * j ∈ keysUpTo n ↔ j < n := by
  simp [keysUpTo, shardCount]

theorem keysUpTo_succ (n : ℕ) : keysUpTo (n + 1) = insert (shardCount * n) (keysUpTo n) := by
  rw [keysUpTo, Finset.range_add_one, Finset.image_insert]
  rfl

theorem card_keysUpTo (n : ℕ) : (keysUpTo n).card = n := by
  rw [keysUpTo, Finset.card_image_of_injective, Finset.card_range]
  intro j j' hj
  exact Nat.eq_of_mul_eq_mul_left (by decide) hj

theorem shard_mul (n : ℕ) : shard id (shardCount * n) = first := by
  simp [shard, first]

/-- The map with the default minimum capacity, keys that are their own hash, and tables that are
never larger than asked for. -/
def tight : System (CapShards ℕ Unit) (CapOp ℕ Unit) := capacities id 1 1000

/-- `n` insertions. -/
theorem tight_filled (n : ℕ) : ∃ s, tight.Reachable s ∧
    (s first).current.entries.keys = keysUpTo n ∧ (s first).current.capacity = n ∧
    (s first).previous.entries = ∅ ∧ (s first).highWaterMark = 0 ∧ (s first).peak = n := by
  induction n with
  | zero => exact ⟨_, System.Reach.init, rfl, rfl, rfl, rfl, rfl⟩
  | succ n ih =>
    obtain ⟨s, hreach, hkeys, hcapacity, hprevious, hmark, hpeak⟩ := ih
    have hnew : shardCount * n ∉ (s first).current.entries := by
      rw [← Finmap.mem_keys, hkeys, mem_keysUpTo]
      exact Nat.lt_irrefl n
    obtain ⟨hinsert, hcard⟩ := card_keys_insert hnew ()
    rw [hkeys, card_keysUpTo] at hcard
    have hgrown : (s first).current.Grown 1 (shardCount * n) () (n + 1) := by
      refine ⟨hcard.le, ?_, .inr ?_⟩
      · rw [hcapacity]
        exact Nat.le_succ n
      · rw [Nat.one_mul]
        exact hcard.ge
    have hstep : tight.step s (.set (shardCount * n) () (n + 1)) =
        some (Function.update s first
          { s first with
            current := (s first).current.insert (shardCount * n) () (n + 1)
            peak := max (s first).peak (n + 1) }) := by
      have hlen : ((s first).current.insert (shardCount * n) () (n + 1)).len = n + 1 := hcard
      simp only [tight, capacities, shard_mul, CapMaps.set, CapMaps.insertCurrent]
      rw [if_neg, if_pos hgrown, hlen]
      · rfl
      · rw [hprevious]
        exact not_or.2 ⟨hnew, Finmap.notMem_empty⟩
    refine ⟨_, hreach.next hstep, ?_⟩
    rw [Function.update_self]
    refine ⟨?_, rfl, hprevious, hmark, ?_⟩
    · change ((s first).current.entries.insert _ ()).keys = _
      rw [hinsert, hkeys, keysUpTo_succ]
    · change max (s first).peak (n + 1) = n + 1
      rw [hpeak]
      exact max_eq_right (Nat.le_succ n)

/-- The first rotation, of a shard with at least the minimum capacity. -/
theorem tight_rotated {n : ℕ} (hn : 1000 ≤ n) : ∃ s, tight.Reachable s ∧
    (s first).current.entries = ∅ ∧ (s first).previous.entries.keys = keysUpTo n ∧
    (s first).highWaterMark = n ∧ (s first).peak = n := by
  obtain ⟨s, hreach, hkeys, -, hprevious, hmark, hpeak⟩ := tight_filled n
  have htotal : (s first).total = n := by
    rw [CapMaps.total, CapMap.len, CapMap.len, hkeys, hprevious, card_keysUpTo]
    rfl
  have hrotates : (s first).Rotates 1000 := ⟨by omega, .inl hmark⟩
  have hfit : Fit 1 (s first).total n := ⟨by omega, by omega⟩
  have hstep := (show tight.step s (.rotateShard first default n) = _ by
    simp only [tight, capacities, CapMaps.rotateShard, if_pos hrotates, if_pos hfit]
    rfl)
  refine ⟨_, hreach.next hstep, ?_⟩
  rw [Function.update_self]
  refine ⟨rfl, ?_, htotal, hpeak⟩
  change (orInsertAll (insertAll ∅ _) (IterOrder.iter _ (s first).previous.entries)).keys = _
  rw [hprevious, keys_drained, hkeys]

/-- `n - k` removals. -/
theorem tight_emptied {n : ℕ} (hn : 1000 ≤ n) {k : ℕ} (hk : k ≤ n) : ∃ s, tight.Reachable s ∧
    (s first).current.entries = ∅ ∧ (s first).previous.entries.keys = keysUpTo k ∧
    (s first).highWaterMark = n ∧ (s first).peak = n := by
  induction hk using Nat.decreasingInduction with
  | self => exact tight_rotated hn
  | of_succ k hk ih =>
    obtain ⟨s, hreach, hcurrent, hkeys, hmark, hpeak⟩ := ih
    have hstep : tight.step s (.pop (shardCount * k)) =
        some (Function.update s first
          { s first with previous := (s first).previous.remove (shardCount * k) }) := by
      simp only [tight, capacities, shard_mul, CapMaps.pop, hcurrent, Finmap.lookup_empty]
    refine ⟨_, hreach.next hstep, ?_⟩
    rw [Function.update_self]
    refine ⟨hcurrent, ?_, hmark, hpeak⟩
    change ((s first).previous.entries.erase _).keys = _
    rw [Finmap.keys_erase, hkeys, keysUpTo_succ, Finset.erase_insert]
    rw [mem_keysUpTo]
    exact Nat.lt_irrefl k

/-- **Memory that never comes back.** Insert `n` entries, rotate, remove all of them but one and
rotate again: the second rotation also finds a `current` table for `n` entries, and keeps it. No
constant bounds that by the one entry left. -/
theorem rotation_keeps_peak :
    ¬ ∃ constant, ∀ i s t, Rotation (K := ℕ) (V := Unit) id 1 1000 (fun _ _ => True) i s t →
      (t i).retained ≤ constant * (s i).total := by
  rintro ⟨constant, hbound⟩
  obtain ⟨s, hreach, hcurrent, hkeys, hmark, hpeak⟩ :=
    tight_emptied (Nat.le_add_left 1000 constant) (k := 1) (by omega)
  have htotal : (s first).total = 1 := by
    rw [CapMaps.total, CapMap.len, CapMap.len, hkeys, hcurrent, card_keysUpTo]
    rfl
  have hrotates : (s first).Rotates 1000 := by
    refine ⟨by omega, .inr ?_⟩
    rw [htotal, hmark]
    calc saturatingMul 1 shrinkFactor = 4 := by decide
      _ < constant + 1000 := by omega
  have hfit : Fit 1 (s first).total 1 := ⟨by omega, by omega⟩
  have hstep := (show tight.step s (.rotateShard first default 1) = _ by
    simp only [tight, capacities, CapMaps.rotateShard, if_pos hrotates, if_pos hfit]
    rfl)
  have hrotation : Rotation id 1 1000 (fun _ _ => True) first s _ :=
    ⟨hreach, hrotates, default, 1, trivial, hstep⟩
  have hle := hrotation.retained.1.trans (hbound first s _ hrotation)
  rw [hpeak, htotal] at hle
  omega

end LargeOnce

end RotatingMap

end ServiceLib
