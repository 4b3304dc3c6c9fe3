import ServiceLib.Serde.RoundTrip

/-!
# Nestings

A serde built by nesting is a tree: its leaves are the primitive serdes, the string and byte
serdes and `StringArraySerde`, its inner nodes the containers, each with the limits it was given.
`Nesting.serde` reads the tree as the serde of `ServiceLib.Serde.Impl` it stands for. A statement
about all nestings is then an induction over the tree, and a quantity such as the encoded size of
a value is a recursion over it.

**Theorem (`Nesting.length_serialize`).** What a nesting writes for `v` is `size v` bytes long, a
number that does not depend on the limits.
-/

namespace ServiceLib.Serde

/-- The serdes that contain no other serde and take no limits. -/
inductive Prim : (T : Type) → [ValueEq T] → Type
  | bool : Prim Bool
  | int8 : Prim Int8
  | uint8 : Prim UInt8
  | int16 : Prim Int16
  | uint16 : Prim UInt16
  | int32 : Prim Int32
  | uint32 : Prim UInt32
  | int64 : Prim Int64
  | uint64 : Prim UInt64
  | rune : Prim Char
  | float32 : Prim F32
  | float64 : Prim F64

/-- A serde built by nesting. Map keys are of a type without hash maps inside. -/
inductive Nesting : (T : Type) → [ValueEq T] → Type 1
  | prim {T : Type} {_ : ValueEq T} (p : Prim T) : Nesting T
  | string (limits : SerdeLimits) : Nesting String
  | bytes (limits : SerdeLimits) : Nesting (List UInt8)
  | fixedSizeArray {T : Type} {_ : ValueEq T} (element : Nesting T) (elementSize : ℕ)
      (limits : SerdeLimits) : Nesting (List T)
  | stringArray (limits : SerdeLimits) : Nesting (List String)
  | array {T : Type} {_ : ValueEq T} (element : Nesting T) (limits : SerdeLimits) :
      Nesting (List T)
  | map {K V : Type} {_ : DecidableEq K} {_ : ValueEq K} {_ : KeyEq K} {_ : ValueEq V}
      (keys : Nesting (List K)) (values : Nesting (List V)) : Nesting (IterMap K V)
  | keyValue {K V : Type} {_ : ValueEq K} {_ : ValueEq V} (key : Nesting K) (value : Nesting V) :
      Nesting (KeyValue K V)

def Prim.serde {T : Type} [ValueEq T] : Prim T → Serde T
  | .bool => boolSerde
  | .int8 => int8Serde
  | .uint8 => uint8Serde
  | .int16 => int16Serde
  | .uint16 => uint16Serde
  | .int32 => int32Serde
  | .uint32 => uint32Serde
  | .int64 => int64Serde
  | .uint64 => uint64Serde
  | .rune => runeSerde
  | .float32 => float32Serde
  | .float64 => float64Serde

/-- The bytes a primitive serde writes and reads. -/
def Prim.width {T : Type} [ValueEq T] : Prim T → ℕ
  | .bool | .int8 | .uint8 => 1
  | .int16 | .uint16 => 2
  | .int32 | .uint32 | .rune | .float32 => 4
  | .int64 | .uint64 | .float64 => 8

theorem Prim.width_pos {T : Type} [ValueEq T] (p : Prim T) : 0 < p.width := by
  cases p <;> decide

namespace Nesting

/-- The serde a nesting stands for. -/
def serde {T : Type} [ValueEq T] : Nesting T → Serde T
  | .prim p => p.serde
  | .string limits => stringSerde limits
  | .bytes limits => bytesSerde limits
  | .fixedSizeArray element elementSize limits =>
    fixedSizeArraySerde element.serde elementSize limits
  | .stringArray limits => stringArraySerde limits
  | .array element limits => arraySerde element.serde limits
  | .map keys values => mapSerde keys.serde values.serde
  | .keyValue key value => (streamKeyValueSerde key.serde value.serde).toSerde

/-! ## The size of an encoding -/

/-- The bytes the encoding of a value takes. -/
def size {T : Type} [ValueEq T] : Nesting T → T → ℕ
  | .prim p, _ => p.width
  | .string _, v => SIZE_BYTES + (asBytes v).length
  | .bytes _, v => SIZE_BYTES + v.length
  | .fixedSizeArray _ elementSize _, v => SIZE_BYTES + v.length * elementSize
  | .stringArray _, v => SIZE_BYTES + (v.map fun s => SIZE_BYTES + (asBytes s).length).sum
  | .array element _, v => SIZE_BYTES + (v.map fun x => SIZE_BYTES + element.size x).sum
  | .map keys values, v =>
    (SIZE_BYTES + keys.size (v.entries.map Sigma.fst)) +
      (SIZE_BYTES + values.size (v.entries.map Sigma.snd))
  | .keyValue key value, v =>
    (SIZE_BYTES + key.size v.key) + (SIZE_BYTES + value.size v.value)

@[simp] theorem length_frame (b : Bytes) : (frame b).length = SIZE_BYTES + b.length := by
  rw [frame, List.length_append, length_toBe]

/-- The pieces of an array add up. -/
theorem length_flatten_eq_sum {T : Type} {Enc : T → Bytes → Prop} {f : T → ℕ}
    (hf : ∀ x e, Enc x e → e.length = f x) {l : List T} {es : List Bytes}
    (h : List.Forall₂ Enc l es) : es.flatten.length = (l.map f).sum := by
  induction h with
  | nil => rfl
  | cons hx _ ih =>
    rw [List.flatten_cons, List.length_append, hf _ _ hx, ih, List.map_cons, List.sum_cons]

theorem length_prim_serialize {T : Type} [ValueEq T] (p : Prim T) {v : T} {b : Bytes}
    (h : p.serde.serialize v = .ok b) : b.length = p.width := by
  cases p <;> cases h <;> rfl

/-- **The size of an encoding.** The induction follows the nesting; the elements of a container
contribute their frames and their own encodings. -/
theorem length_serialize {T : Type} [ValueEq T] (c : Nesting T) {v : T} {b : Bytes}
    (h : c.serde.serialize v = .ok b) : b.length = c.size v := by
  induction c generalizing b with
  | prim p => exact length_prim_serialize p h
  | string limits =>
    obtain ⟨-, rfl⟩ := stringSerde_serialize_eq h
    exact length_frame _
  | bytes limits =>
    obtain ⟨-, rfl⟩ := bytesSerde_serialize_eq h
    exact length_frame _
  | fixedSizeArray element elementSize limits ih =>
    obtain ⟨-, es, hes, rfl⟩ := fixedSizeArraySerde_serialize_eq h
    rw [List.length_append, length_toBe, length_flatten_of_forall₂ (fun _ _ hx => hx.2) hes]
    rfl
  | stringArray limits =>
    obtain ⟨-, es, hes, rfl⟩ := stringArraySerde_serialize_eq h
    rw [List.length_append, length_toBe, length_flatten_eq_sum ?_ hes]
    · rfl
    · rintro x e ⟨-, rfl⟩
      exact length_frame _
  | array element limits ih =>
    obtain ⟨-, es, hes, rfl⟩ := arraySerde_serialize_eq h
    rw [List.length_append, length_toBe, length_flatten_eq_sum ?_ hes]
    · rfl
    · rintro x e ⟨enc, hx, rfl⟩
      rw [length_frame, ih hx]
  | map keys values ihk ihv =>
    obtain ⟨kb, vb, hk, hv, rfl⟩ := mapSerde_serialize_eq h
    rw [List.length_append, length_frame, length_frame, ihk hk, ihv hv]
    rfl
  | keyValue key value ihk ihv =>
    obtain ⟨kb, vb, hk, hv, rfl⟩ := streamKeyValueSerde_serialize_eq h
    rw [List.length_append, length_frame, length_frame, ihk hk, ihv hv]
    rfl

/-- No encoding is empty. -/
theorem size_pos {T : Type} [ValueEq T] (c : Nesting T) (v : T) : 0 < c.size v := by
  have hframe : 0 < SIZE_BYTES := by decide
  cases c with
  | prim p => exact p.width_pos
  | string limits => exact Nat.add_pos_left hframe _
  | bytes limits => exact Nat.add_pos_left hframe _
  | fixedSizeArray element elementSize limits => exact Nat.add_pos_left hframe _
  | stringArray limits => exact Nat.add_pos_left hframe _
  | array element limits => exact Nat.add_pos_left hframe _
  | map keys values => exact Nat.add_pos_left (Nat.add_pos_left hframe _) _
  | keyValue key value => exact Nat.add_pos_left (Nat.add_pos_left hframe _) _

end Nesting

end ServiceLib.Serde
