import ServiceLib.Decoder

/-!
# The serdes

Follows `src/runtime/serde/serdeimpl.rs`. A `Serde T` is the trait object: a partial encoder and
a partial decoder. Two framing conventions coexist: fixed-width elements are packed without
frames, everything of variable width is preceded by its length as eight big-endian bytes.

Byte strings are lists of bytes; a `HashMap` value is its bindings in the order an iteration
visits them (`IterMap`), and floats are their bit patterns, which is all the code looks at.
-/

namespace ServiceLib

namespace Serde

def SIZE_BYTES : ℕ := 8

/-- `usize::MAX` on a 64-bit target. -/
def usizeMax : ℕ := 2 ^ 64 - 1

/-- `isize::MAX`, the largest byte string a `Vec` or a slice can hold. -/
def isizeMax : ℕ := 2 ^ 63 - 1

/-- `SerdeError`. -/
structure SerdeError where
  message : String
  offset : ℕ
  deriving DecidableEq, Repr

/-- `SerdeLimits`. -/
structure SerdeLimits where
  maxStringBytes : ℕ
  maxBytes : ℕ
  maxContainerElements : ℕ
  maxTotalBytes : ℕ

/-- `SerdeLimits::default()`. -/
def SerdeLimits.default : SerdeLimits := ⟨usizeMax, usizeMax, usizeMax, usizeMax⟩

end Serde

open Serde

/-- The trait `Serde<T>`. -/
structure Serde (T : Type) where
  serialize : T → Except SerdeError Bytes
  deserialize : Bytes → Except SerdeError T

namespace Serde

/-! ## The reader -/

/-- The `Reader` operations are decoders over the cursor `(data, offset)`. -/
abbrev Reader (α : Type) := Decoder SerdeError α

/-- `Reader::new` followed by the rest of a `deserialize` body. -/
def withReader {α : Type} (data : Bytes) (maxTotalBytes : ℕ) (body : Reader α) :
    Except SerdeError α :=
  if data.length > maxTotalBytes then .error ⟨"serde input exceeds configured limit", 0⟩
  else match body ⟨data, 0⟩ with
    | .ok (v, _) => .ok v
    | .error e => .error e

/-- `Reader::read`. -/
def read (size : ℕ) (what : String) : Reader Bytes := fun c =>
  if c.offset + size > usizeMax then .error ⟨"serde size overflow", c.offset⟩
  else if c.offset + size > c.data.length then
    .error ⟨"serde underflow while reading " ++ what, c.offset⟩
  else .ok ((c.data.drop c.offset).take size, ⟨c.data, c.offset + size⟩)

/-- `Reader::read_size`; a `u64` always fits a 64-bit `usize`. -/
def readSize (maximum : ℕ) (what : String) : Reader ℕ := do
  let offset := (← get).offset
  let size := ofBe (← read SIZE_BYTES what)
  if size > maximum then throw ⟨what ++ " exceeds configured limit", offset⟩
  else pure size

/-- `reader.read_size(reader.data.len(), what)` -/
def readSizeInData (what : String) : Reader ℕ := do
  readSize (← get).data.length what

/-- `put_size`: the length is cut to 64 bits. -/
def putSize (output : Bytes) (size : ℕ) : Bytes := output ++ toBe SIZE_BYTES size

/-! ## Primitive serdes -/

/-- `unsigned_serde!`. -/
def unsignedSerde {T : Type} (name : String) (size : ℕ) (toNat : T → ℕ) (ofNat : ℕ → T) :
    Serde T where
  serialize value := .ok (toBe size (toNat value))
  deserialize value := withReader value usizeMax do
    return ofNat (ofBe (← read size name))

/-- `signed_serde!`: the two's-complement bits, with the sign bit flipped by `mask`. -/
def signedSerde {T U : Type} [XorOp U] (name : String) (size : ℕ) (asUnsigned : T → U)
    (asSigned : U → T) (toNat : U → ℕ) (ofNat : ℕ → U) (mask : U) : Serde T where
  serialize value := .ok (toBe size (toNat (asUnsigned value ^^^ mask)))
  deserialize value := withReader value usizeMax do
    return asSigned (ofNat (ofBe (← read size name)) ^^^ mask)

def boolSerde : Serde Bool where
  serialize value := .ok [if value then 1 else 0]
  deserialize value := withReader value usizeMax do
    let bytes ← read 1 "bool"
    return bytes.headD 0 != 0

-- Go writes int8 as its raw byte, hence the zero mask.
def int8Serde : Serde Int8 :=
  signedSerde "i8" 1 Int8.toUInt8 UInt8.toInt8 UInt8.toNat UInt8.ofNat 0x00

def uint8Serde : Serde UInt8 := unsignedSerde "u8" 1 UInt8.toNat UInt8.ofNat

def int16Serde : Serde Int16 :=
  signedSerde "i16" 2 Int16.toUInt16 UInt16.toInt16 UInt16.toNat UInt16.ofNat 0x8000

def uint16Serde : Serde UInt16 := unsignedSerde "u16" 2 UInt16.toNat UInt16.ofNat

def int32Serde : Serde Int32 :=
  signedSerde "i32" 4 Int32.toUInt32 UInt32.toInt32 UInt32.toNat UInt32.ofNat 0x80000000

def uint32Serde : Serde UInt32 := unsignedSerde "u32" 4 UInt32.toNat UInt32.ofNat

def int64Serde : Serde Int64 :=
  signedSerde "i64" 8 Int64.toUInt64 UInt64.toInt64 UInt64.toNat UInt64.ofNat 0x8000000000000000

def uint64Serde : Serde UInt64 := unsignedSerde "u64" 8 UInt64.toNat UInt64.ofNat

/-- `char::from_u32`. -/
def charFromU32 (n : UInt32) : Option Char := if h : n.isValidChar then some ⟨n, h⟩ else none

def runeSerde : Serde Char where
  serialize value := .ok (toBe 4 value.val.toNat)
  deserialize value := do
    let encoded ← uint32Serde.deserialize value
    match charFromU32 encoded with
    | some c => .ok c
    | none => .error ⟨"invalid Unicode scalar", 0⟩

/-- An `f32`, as its bits. -/
structure F32 where
  toBits : UInt32
  deriving DecidableEq

/-- An `f64`, as its bits. -/
structure F64 where
  toBits : UInt64
  deriving DecidableEq

def float32Serde : Serde F32 where
  serialize value := .ok (toBe 4 value.toBits.toNat)
  deserialize value := do return ⟨← uint32Serde.deserialize value⟩

def float64Serde : Serde F64 where
  serialize value := .ok (toBe 8 value.toBits.toNat)
  deserialize value := do return ⟨← uint64Serde.deserialize value⟩

/-! ## Strings and byte sequences -/

/-- `str::as_bytes`. -/
def asBytes (s : String) : Bytes := s.toByteArray.data.toList

/-- `String::from_utf8`. -/
def fromUtf8 (bytes : Bytes) : Option String := String.fromUTF8? ⟨bytes.toArray⟩

def stringSerde (limits : SerdeLimits) : Serde String where
  serialize value :=
    if (asBytes value).length > limits.maxStringBytes then
      .error ⟨"string exceeds configured serde limit", 0⟩
    else .ok (putSize [] (asBytes value).length ++ asBytes value)
  deserialize value := withReader value limits.maxTotalBytes do
    let length ← readSize limits.maxStringBytes "string length"
    let offset := (← get).offset
    let bytes ← read length "string"
    match fromUtf8 bytes with
    | some s => pure s
    | none => throw ⟨"string is not valid UTF-8", offset⟩

def bytesSerde (limits : SerdeLimits) : Serde (List UInt8) where
  serialize value :=
    if value.length > limits.maxBytes then .error ⟨"byte sequence exceeds configured limit", 0⟩
    else .ok (putSize [] value.length ++ value)
  deserialize value := withReader value limits.maxTotalBytes do
    let length ← readSize limits.maxBytes "bytes length"
    read length "bytes"

/-! ## Arrays -/

section Arrays

variable {T : Type}

/-- `FixedSizeArraySerde<T, S, ELEMENT_SIZE>`: elements packed without frames. -/
def fixedSizeArraySerde (elementSerde : Serde T) (elementSize : ℕ) (limits : SerdeLimits) :
    Serde (List T) where
  serialize value := do
    if value.length > limits.maxContainerElements then
      throw ⟨"array exceeds configured element limit", 0⟩
    value.foldlM (fun output item => do
      let encoded ← elementSerde.serialize item
      if encoded.length ≠ elementSize then
        throw ⟨"fixed-size serde returned an invalid element size", output.length⟩
      return output ++ encoded) (putSize [] value.length)
  deserialize value := withReader value limits.maxTotalBytes do
    let count ← readSize limits.maxContainerElements "array count"
    let offset := (← get).offset
    if count * elementSize > usizeMax then throw ⟨"array size overflow", offset⟩
    else if count * elementSize > (← get).data.length - offset then
      throw ⟨"fixed-size array payload is truncated", offset⟩
    else
      Decoder.times (do elementSerde.deserialize (← read elementSize "array element")) count

/-- `StringArraySerde`: the frame of an element is the one its `StringSerde` writes. -/
def stringArraySerde (limits : SerdeLimits) : Serde (List String) where
  serialize value := do
    if value.length > limits.maxContainerElements then
      throw ⟨"array exceeds configured element limit", 0⟩
    value.foldlM (fun output item => do
      return output ++ (← (stringSerde limits).serialize item)) (putSize [] value.length)
  deserialize value := withReader value limits.maxTotalBytes do
    let count ← readSize limits.maxContainerElements "array count"
    Decoder.times (do
      let length ← readSize limits.maxStringBytes "string length"
      let offset := (← get).offset
      let bytes ← read length "string"
      match fromUtf8 bytes with
      | some s => pure s
      | none => throw ⟨"string is not valid UTF-8", offset⟩) count

/-- `ArraySerde<T>`: every element is framed by its encoded length. -/
def arraySerde (elementSerde : Serde T) (limits : SerdeLimits) : Serde (List T) where
  serialize value := do
    if value.length > limits.maxContainerElements then
      throw ⟨"array exceeds configured element limit", 0⟩
    value.foldlM (fun output item => do
      let encoded ← elementSerde.serialize item
      return putSize output encoded.length ++ encoded) (putSize [] value.length)
  deserialize value := withReader value limits.maxTotalBytes do
    let count ← readSize limits.maxContainerElements "array count"
    Decoder.times (do
      let length ← readSizeInData "array element length"
      elementSerde.deserialize (← read length "array element")) count

end Arrays

/-! ## Maps and key/value pairs -/

/-- A `HashMap` in memory: its bindings, in the order an iteration visits them. -/
abbrev IterMap (K V : Type) := AList fun _ : K => V

/-- `iter.collect::<HashMap<_, _>>()`: a later binding of a key replaces an earlier one. -/
def collect {K V : Type} [DecidableEq K] (bindings : List (K × V)) : IterMap K V :=
  bindings.foldl (fun m e => m.insert e.1 e.2) ∅

/-- `MapSerde<K, V>`: all keys as one vector, then all values as another. -/
def mapSerde {K V : Type} [DecidableEq K] (keySerde : Serde (List K)) (valueSerde : Serde (List V)) :
    Serde (IterMap K V) where
  serialize value := do
    let keys := value.entries.map Sigma.fst
    let values := value.entries.map Sigma.snd
    let encodedKeys ← keySerde.serialize keys
    let encodedValues ← valueSerde.serialize values
    let output := putSize [] encodedKeys.length ++ encodedKeys
    return putSize output encodedValues.length ++ encodedValues
  deserialize value := withReader value usizeMax do
    let keysLength ← readSizeInData "map keys length"
    let keys ← keySerde.deserialize (← read keysLength "map keys")
    let valuesLength ← readSizeInData "map values length"
    let values ← valueSerde.deserialize (← read valuesLength "map values")
    if keys.length ≠ values.length then
      throw ⟨"map key and value counts do not match", (← get).offset⟩
    else return collect (keys.zip values)

/-- `KeyValue<K, V>`. -/
structure KeyValue (K V : Type) where
  key : K
  value : V

/-- The trait `StreamSerde<T>`: a serde that may also split a value into a key and a rest. -/
structure StreamSerde (T : Type) extends Serde T where
  isKeyValue : Bool
  serializeKey : T → Except SerdeError (Option Bytes)
  serializeValue : T → Except SerdeError Bytes
  deserializeKeyValue : Option Bytes → Bytes → Except SerdeError T

/-- `StreamKeyValueSerde<K, V>`. -/
def streamKeyValueSerde {K V : Type} (keySerde : Serde K) (valueSerde : Serde V) :
    StreamSerde (KeyValue K V) where
  serialize value := do
    let key ← keySerde.serialize value.key
    let encodedValue ← valueSerde.serialize value.value
    let output := putSize [] key.length ++ key
    return putSize output encodedValue.length ++ encodedValue
  deserialize value := withReader value usizeMax do
    let keyLength ← readSizeInData "key length"
    let key ← keySerde.deserialize (← read keyLength "key")
    let valueLength ← readSizeInData "value length"
    let value ← valueSerde.deserialize (← read valueLength "value")
    return ⟨key, value⟩
  isKeyValue := true
  serializeKey value := do return some (← keySerde.serialize value.key)
  serializeValue value := valueSerde.serialize value.value
  deserializeKeyValue key value :=
    match key with
    | none => .error ⟨"key is required", 0⟩
    | some key => do
      let k ← keySerde.deserialize key
      let v ← valueSerde.deserialize value
      return ⟨k, v⟩

end Serde

end ServiceLib
