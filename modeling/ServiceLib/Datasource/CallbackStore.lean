import ServiceLib.Machine
import ServiceLib.Store.RotatingMap

/-!
# The callback store of the gRPC source

Follows `CallbackStore` in `src/datasource/grpc/callback_store.rs`, which keeps the first callback
in place and moves to a `HashMap` when a second id arrives. It never moves back.

**Theorem (`operations_match_map`).** From `new` on, every sequence of operations gets the answers
that a map gives.

The idea: either form stands for one map (`toMap`), and every operation commutes with that reading.
-/

namespace ServiceLib

/-- `CallbackStore`: the first id has room without a table. -/
inductive CallbackStore (C : Type)
  | inline (slot : Option (String × C))
  | many (callbacks : HashMap String C)

namespace CallbackStore

variable {C : Type}

def new : CallbackStore C := .inline none

def insert (store : CallbackStore C) (id : String) (callback : C) : CallbackStore C × Option C :=
  match store with
  | .inline none => (.inline (some (id, callback)), none)
  | .inline (some (key, value)) =>
    if key = id then (.inline (some (key, callback)), some value)
    else (.many ((Finmap.insert key value ∅).insert id callback), none)
  | .many callbacks => (.many (callbacks.insert id callback), callbacks.lookup id)

def get (store : CallbackStore C) (id : String) : Option C :=
  match store with
  | .inline (some (key, value)) => if key = id then some value else none
  | .inline none => none
  | .many callbacks => callbacks.lookup id

def remove (store : CallbackStore C) (id : String) : CallbackStore C × Option C :=
  match store with
  | .inline (some (key, value)) =>
    if key = id then (.inline none, some value) else (.inline (some (key, value)), none)
  | .inline none => (.inline none, none)
  | .many callbacks => (.many (callbacks.erase id), callbacks.lookup id)

/-- The map a store stands for. -/
def toMap : CallbackStore C → HashMap String C
  | .inline none => ∅
  | .inline (some (key, value)) => Finmap.insert key value ∅
  | .many callbacks => callbacks

theorem toMap_new : (new : CallbackStore C).toMap = ∅ := rfl

theorem get_eq_lookup (store : CallbackStore C) (id : String) :
    store.get id = store.toMap.lookup id := by
  match store with
  | .inline none => rfl
  | .inline (some (key, value)) =>
    simp only [get, toMap, RotatingMap.lookup_insert_ite, Finmap.lookup_empty, eq_comm]
  | .many callbacks => rfl

theorem toMap_insert (store : CallbackStore C) (id : String) (callback : C) :
    (store.insert id callback).1.toMap = store.toMap.insert id callback ∧
      (store.insert id callback).2 = store.toMap.lookup id := by
  match store with
  | .inline none => exact ⟨rfl, rfl⟩
  | .inline (some (key, value)) =>
    simp only [insert, toMap]
    by_cases hkey : key = id
    · subst hkey
      rw [if_pos rfl, Finmap.insert_insert, Finmap.lookup_insert]
      exact ⟨rfl, rfl⟩
    · rw [if_neg hkey, Finmap.lookup_insert_of_ne _ (Ne.symm hkey)]
      exact ⟨rfl, rfl⟩
  | .many callbacks => exact ⟨rfl, rfl⟩

theorem toMap_remove (store : CallbackStore C) (id : String) :
    (store.remove id).1.toMap = store.toMap.erase id ∧
      (store.remove id).2 = store.toMap.lookup id := by
  match store with
  | .inline none =>
    refine ⟨Finmap.ext_lookup fun k => ?_, rfl⟩
    rw [show toMap (.inline none) = (∅ : HashMap String C) from rfl,
      RotatingMap.lookup_erase_ite]
    split_ifs <;> rfl
  | .inline (some (key, value)) =>
    simp only [remove, toMap]
    by_cases hkey : key = id
    · subst hkey
      rw [if_pos rfl, Finmap.lookup_insert]
      refine ⟨Finmap.ext_lookup fun k => ?_, rfl⟩
      rw [RotatingMap.lookup_erase_ite, RotatingMap.lookup_insert_ite]
      split_ifs <;> rfl
    · rw [if_neg hkey, Finmap.lookup_insert_of_ne _ (Ne.symm hkey)]
      refine ⟨Finmap.ext_lookup fun k => ?_, rfl⟩
      rw [RotatingMap.lookup_erase_ite]
      split_ifs with hk
      · subst hk
        exact Finmap.lookup_insert_of_ne _ (Ne.symm hkey)
      · rfl
  | .many callbacks => exact ⟨rfl, rfl⟩

/-! ## Sequences of operations -/

inductive Operation (C : Type)
  | insert (id : String) (callback : C)
  | get (id : String)
  | remove (id : String)

/-- The store from `new` on. -/
def machine : Machine (CallbackStore C) (Operation C) (Option C) where
  init := new
  step store
    | .insert id callback => ((store.insert id callback).2, (store.insert id callback).1)
    | .get id => (store.get id, store)
    | .remove id => ((store.remove id).2, (store.remove id).1)

/-- An ordinary map under the same operations. -/
def mapMachine : Machine (HashMap String C) (Operation C) (Option C) where
  init := ∅
  step callbacks
    | .insert id callback => (callbacks.lookup id, callbacks.insert id callback)
    | .get id => (callbacks.lookup id, callbacks)
    | .remove id => (callbacks.lookup id, callbacks.erase id)

/-- Every operation commutes with the reading as a map. -/
theorem machine_simulates :
    (machine (C := C)).Simulates mapMachine fun store callbacks => store.toMap = callbacks where
  init := toMap_new
  answer := by
    rintro store _ op rfl
    cases op with
    | insert id callback => exact (toMap_insert store id callback).2
    | get id => exact get_eq_lookup store id
    | remove id => exact (toMap_remove store id).2
  next := by
    rintro store _ op rfl
    cases op with
    | insert id callback => exact (toMap_insert store id callback).1
    | get id => rfl
    | remove id => exact (toMap_remove store id).1

/-- **The store is a map.** -/
theorem operations_match_map (ops : List (Operation C)) :
    ((machine (C := C)).exec new ops).1 = ((mapMachine (C := C)).exec ∅ ops).1 ∧
      ((machine (C := C)).exec new ops).2.toMap = ((mapMachine (C := C)).exec ∅ ops).2 :=
  machine_simulates.exec ops

end CallbackStore

end ServiceLib
