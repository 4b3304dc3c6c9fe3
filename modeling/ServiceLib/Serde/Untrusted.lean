import ServiceLib.Serde.Nesting
import ServiceLib.Traced

/-!
# Decoding untrusted bytes

The decoders of `src/runtime/serde/serdeimpl.rs` once more, now as a machine runs them: sizes are
64-bit words that wrap, a slice index out of range and a failed `expect` panic, and
`Vec::with_capacity` logs what it was asked for and panics when the reservation is larger than
`isize::MAX` bytes.

**Theorem (`decode_safe_iff`).** On every byte string every nesting of serdes returns what
`ServiceLib.Serde.Impl` says, computed with unbounded numbers, or dies of a capacity overflow; no
slice index is out of range and no size computation wraps. Every reservation is covered by the
bytes left to read, and nothing panics, exactly if each count that a `StringArraySerde` or an
`ArraySerde` reads is covered by the bytes after it.

The idea: `FixedSizeArraySerde` compares the payload with what is left before it reserves, the
other two array decoders reserve first. The machine decoders follow the text of the ones in
`Serde.Impl`, so `Traced.Realises` carries over the whole reading operation by operation.
-/

namespace ServiceLib.Serde

open Decoder

namespace Machine

/-! ## Words -/

/-- `usize::checked_add`: the machine adds modulo `2 ^ 64` and looks for a wrap. -/
def checkedAdd (a b : ℕ) : Option ℕ :=
  let sum := (a + b) % 2 ^ 64
  if sum < a then none else some sum

/-- `usize::checked_mul`: the machine multiplies modulo `2 ^ 64` and divides back. -/
def checkedMul (a b : ℕ) : Option ℕ :=
  let product := a * b % 2 ^ 64
  if b ≠ 0 ∧ product / b ≠ a then none else some product

/-- `usize::saturating_sub`. -/
def saturatingSub (a b : ℕ) : ℕ := if a < b then 0 else (a + 2 ^ 64 - b) % 2 ^ 64

theorem usizeMax_succ : usizeMax + 1 = 2 ^ 64 := by decide

theorem checkedAdd_eq {a b : ℕ} (ha : a ≤ usizeMax) (hb : b ≤ usizeMax) :
    checkedAdd a b = if a + b > usizeMax then none else some (a + b) := by
  have hmax := usizeMax_succ
  simp only [checkedAdd]
  by_cases hwrap : a + b > usizeMax
  · rw [if_pos hwrap, if_pos (by omega)]
  · have hfit : (a + b) % 2 ^ 64 = a + b := Nat.mod_eq_of_lt (by omega)
    rw [if_neg hwrap, hfit, if_neg (by omega)]

theorem saturatingSub_eq {a b : ℕ} (ha : a ≤ usizeMax) : saturatingSub a b = a - b := by
  have hmax := usizeMax_succ
  rw [saturatingSub]
  split_ifs <;> omega

theorem checkedMul_eq (a b : ℕ) :
    checkedMul a b = if a * b > usizeMax then none else some (a * b) := by
  have hmax := usizeMax_succ
  simp only [checkedMul]
  by_cases hwrap : a * b > usizeMax
  · have hb : b ≠ 0 := by
      rintro rfl
      simp at hwrap
    rw [if_pos hwrap, if_pos]
    refine ⟨hb, fun hdiv => ?_⟩
    -- A wrapped product is below `2 ^ 64 ≤ a * b`, so it cannot divide back to `a`.
    have hle : a * b % 2 ^ 64 / b * b ≤ a * b % 2 ^ 64 := Nat.div_mul_le_self _ _
    have hlt : a * b % 2 ^ 64 < 2 ^ 64 := Nat.mod_lt _ (by decide)
    rw [hdiv] at hle
    omega
  · rw [if_neg hwrap, Nat.mod_eq_of_lt (by omega), if_neg]
    rintro ⟨hb, hne⟩
    exact hne (Nat.mul_div_cancel a (Nat.pos_of_ne_zero hb))

/-! ## What a run can do besides returning -/

/-- What `Vec::with_capacity` was asked for, and the bytes left to read at that point. -/
structure Reservation where
  count : ℕ
  remaining : ℕ

/-- The reservation asks for no more elements than there are bytes left. -/
def Reservation.Covered (r : Reservation) : Prop := r.count ≤ r.remaining

inductive Panic
  | sliceIndex
  | expectFailed
  | capacityOverflow
  deriving DecidableEq

abbrev Run (α : Type) := Traced Reservation SerdeError Panic α

/-- The `Reader` operations as the machine runs them. -/
abbrev MReader (α : Type) := StateT Cursor (Traced Reservation SerdeError Panic) α

def fail {α : Type} (e : SerdeError) : MReader α := fun _ => Traced.halt (.err e)

def panic {α : Type} (p : Panic) : Run α := Traced.halt (.panic p)

/-- `&data[start..stop]` -/
def slice (data : Bytes) (start stop : ℕ) : Run Bytes :=
  if start ≤ stop ∧ stop ≤ data.length then pure ((data.take stop).drop start)
  else panic .sliceIndex

/-- `bytes[index]` -/
def index (bytes : Bytes) (i : ℕ) : Run UInt8 :=
  match bytes[i]? with
  | some b => pure b
  | none => panic .sliceIndex

/-- `<[u8; N]>::try_from(bytes).expect(..)` -/
def expectArray (n : ℕ) (bytes : Bytes) : Run Bytes :=
  if bytes.length = n then pure bytes else panic .expectFailed

/-- `Vec::with_capacity(count)` for elements of `elementBytes` bytes in memory. -/
def withCapacity (elementBytes count : ℕ) : MReader Unit := fun c => do
  Traced.emit ⟨count, c.data.length - c.offset⟩
  if count * elementBytes > isizeMax then panic .capacityOverflow
  else pure ((), c)

/-! ## The reader -/

/-- `Reader::new` followed by the rest of a `deserialize` body. -/
def withReader {α : Type} (data : Bytes) (maxTotalBytes : ℕ) (body : MReader α) : Run α :=
  if data.length > maxTotalBytes then
    Traced.halt (.err ⟨"serde input exceeds configured limit", 0⟩)
  else do
    let (v, _) ← body ⟨data, 0⟩
    return v

/-- `Reader::read`. -/
def read (size : ℕ) (what : String) : MReader Bytes := fun c =>
  match checkedAdd c.offset size with
  | none => Traced.halt (.err ⟨"serde size overflow", c.offset⟩)
  | some stop =>
    if stop > c.data.length then
      Traced.halt (.err ⟨"serde underflow while reading " ++ what, c.offset⟩)
    else do
      let result ← slice c.data c.offset stop
      return (result, ⟨c.data, stop⟩)

/-- `Reader::read_size`. -/
def readSize (maximum : ℕ) (what : String) : MReader ℕ := do
  let offset := (← get).offset
  let bytes ← read SIZE_BYTES what
  let size := ofBe (← expectArray SIZE_BYTES bytes)
  if size > maximum then fail ⟨what ++ " exceeds configured limit", offset⟩
  else pure size

/-- `reader.read_size(reader.data.len(), what)` -/
def readSizeInData (what : String) : MReader ℕ := do
  readSize (← get).data.length what

/-! ## The decoders -/

/-- `deserialize` of `unsigned_serde!`. -/
def unsigned {T : Type} (name : String) (size : ℕ) (ofNat : ℕ → T) (data : Bytes) : Run T :=
  withReader data usizeMax do
    let bytes ← read size name
    return ofNat (ofBe (← expectArray size bytes))

/-- `deserialize` of `signed_serde!`. -/
def signed {T U : Type} [XorOp U] (name : String) (size : ℕ) (asSigned : U → T) (ofNat : ℕ → U)
    (mask : U) (data : Bytes) : Run T :=
  withReader data usizeMax do
    let bytes ← read size name
    return asSigned (ofNat (ofBe (← expectArray size bytes)) ^^^ mask)

/-- The primitive decoders. -/
def prim {T : Type} [ValueEq T] : Prim T → Bytes → Run T
  | .bool, data => withReader data usizeMax do
    let bytes ← read 1 "bool"
    return (← index bytes 0) != 0
  | .int8, data => signed "i8" 1 UInt8.toInt8 UInt8.ofNat 0x00 data
  | .uint8, data => unsigned "u8" 1 UInt8.ofNat data
  | .int16, data => signed "i16" 2 UInt16.toInt16 UInt16.ofNat 0x8000 data
  | .uint16, data => unsigned "u16" 2 UInt16.ofNat data
  | .int32, data => signed "i32" 4 UInt32.toInt32 UInt32.ofNat 0x80000000 data
  | .uint32, data => unsigned "u32" 4 UInt32.ofNat data
  | .int64, data => signed "i64" 8 UInt64.toInt64 UInt64.ofNat 0x8000000000000000 data
  | .uint64, data => unsigned "u64" 8 UInt64.ofNat data
  | .rune, data => do
    let encoded ← unsigned "u32" 4 UInt32.ofNat data
    match charFromU32 encoded with
    | some c => pure c
    | none => Traced.halt (.err ⟨"invalid Unicode scalar", 0⟩)
  | .float32, data => do return ⟨← unsigned "u32" 4 UInt32.ofNat data⟩
  | .float64, data => do return ⟨← unsigned "u64" 8 UInt64.ofNat data⟩

/-- One framed string, as `StringSerde` and `StringArraySerde` read it. -/
def readString (maxStringBytes : ℕ) : MReader String := do
  let length ← readSize maxStringBytes "string length"
  let offset := (← get).offset
  let bytes ← read length "string"
  match fromUtf8 bytes with
  | some s => pure s
  | none => fail ⟨"string is not valid UTF-8", offset⟩

/-- `inner.deserialize(reader.read(length)?)?` behind its length. -/
def readInner {T : Type} (inner : Bytes → Run T) (what what' : String) : MReader T := do
  let length ← readSizeInData what
  inner (← read length what')

/-- What `FixedSizeArraySerde::deserialize` does after the count: the two size checks, the
reservation, the elements. -/
def fixedPayload {T : Type} (inner : Bytes → Run T) (elementBytes elementSize count : ℕ) :
    MReader (List T) := do
  let offset := (← get).offset
  match checkedMul count elementSize with
  | none => fail ⟨"array size overflow", offset⟩
  | some payloadSize =>
    if payloadSize > saturatingSub (← get).data.length offset then
      fail ⟨"fixed-size array payload is truncated", offset⟩
    else
      withCapacity elementBytes count
      Traced.times (do inner (← read elementSize "array element")) count

/-- What the two other array decoders do after the count: the reservation, then the elements. -/
def reserveThen {T : Type} (element : MReader T) (elementBytes count : ℕ) : MReader (List T) := do
  withCapacity elementBytes count
  Traced.times element count

/-- Two framed parts decoded by two inner serdes, then combined. -/
def pair {A B C : Type} (a : Bytes → Run A) (b : Bytes → Run B) (w₁ w₂ w₃ w₄ : String)
    (combine : A → B → MReader C) : MReader C := do
  let x ← readInner a w₁ w₂
  let y ← readInner b w₃ w₄
  combine x y

end Machine

/-- `deserialize` of a nesting as a machine runs it. The layout of values in memory, Rust's
`size_of`, is a parameter. -/
def Nesting.decode (sizeOf : Type → ℕ) {T : Type} [ValueEq T] : Nesting T → Bytes → Machine.Run T
  | .prim p, data => Machine.prim p data
  | .string limits, data =>
    Machine.withReader data limits.maxTotalBytes (Machine.readString limits.maxStringBytes)
  | .bytes limits, data => Machine.withReader data limits.maxTotalBytes do
    let length ← Machine.readSize limits.maxBytes "bytes length"
    Machine.read length "bytes"
  | @Nesting.fixedSizeArray T _ element elementSize limits, data =>
    Machine.withReader data limits.maxTotalBytes do
      let count ← Machine.readSize limits.maxContainerElements "array count"
      Machine.fixedPayload (element.decode sizeOf) (sizeOf T) elementSize count
  | .stringArray limits, data => Machine.withReader data limits.maxTotalBytes do
    let count ← Machine.readSize limits.maxContainerElements "array count"
    Machine.reserveThen (Machine.readString limits.maxStringBytes) (sizeOf String) count
  | @Nesting.array T _ element limits, data => Machine.withReader data limits.maxTotalBytes do
    let count ← Machine.readSize limits.maxContainerElements "array count"
    Machine.reserveThen
      (Machine.readInner (element.decode sizeOf) "array element length" "array element")
      (sizeOf T) count
  | .map keys values, data => Machine.withReader data usizeMax
    (Machine.pair (keys.decode sizeOf) (values.decode sizeOf) "map keys length" "map keys"
      "map values length" "map values" fun keys values => do
        if keys.length ≠ values.length then
          let offset := (← get).offset
          Machine.fail ⟨"map key and value counts do not match", offset⟩
        else return collect (keys.zip values))
  | .keyValue key value, data => Machine.withReader data usizeMax
    (Machine.pair (key.decode sizeOf) (value.decode sizeOf) "key length" "key" "value length"
      "value" fun key value => pure ⟨key, value⟩)

namespace Machine

/-! ## The machine follows the mathematical reading -/

/-- The run ends as `x` says unless it dies of a capacity overflow; without panics and with covered
reservations only exactly if `p`. -/
abbrev Follows {α : Type} (run : Run α) (x : Except SerdeError α) (p : Prop) : Prop :=
  Traced.Follows Reservation.Covered (· = Panic.capacityOverflow) run x p

abbrev Realises {α : Type} (m : MReader α) (d : Reader α) (q : Cursor → Prop) : Prop :=
  Traced.Realises isizeMax Reservation.Covered (· = Panic.capacityOverflow) m d q

theorem read_length {size : ℕ} {what : String} {c c' : Cursor} {bs : Bytes}
    (h : Serde.read size what c = .ok (bs, c')) : bs.length = size := by
  rw [Serde.read] at h
  split_ifs at h with h1 h2
  simp only [Except.ok.injEq, Prod.mk.injEq] at h
  rw [← h.1, List.length_take, List.length_drop]
  omega

/-- The slice index of `Reader::read` is never out of range. -/
theorem read_realises {size : ℕ} (hsize : size ≤ usizeMax) (what : String) :
    Realises (read size what) (Serde.read size what) fun _ => True where
  follows := by
    intro c hc
    have hmax := isizeMax_le_usizeMax
    have hoff := hc.offset_le
    have hlen := hc.length_le
    rw [read, Serde.read, checkedAdd_eq (by omega) hsize]
    by_cases hover : c.offset + size > usizeMax
    · rw [if_pos hover, if_pos hover]
      exact Traced.Follows.err _
    · rw [if_neg hover, if_neg hover]
      dsimp only
      by_cases hunder : c.offset + size > c.data.length
      · rw [if_pos hunder, if_pos hunder]
        exact Traced.Follows.err _
      · have hslice : slice c.data c.offset (c.offset + size) =
            pure ((c.data.drop c.offset).take size) := by
          rw [slice, if_pos (by omega), List.drop_take, Nat.add_sub_cancel_left]
        rw [if_neg hunder, if_neg hunder, hslice]
        exact Traced.Follows.pure _
  stays := by
    intro c bs c' hc h
    rw [Serde.read] at h
    split_ifs at h with h1 h2
    cases h
    exact ⟨⟨Nat.le_of_not_lt h2, hc.length_le⟩, rfl⟩

/-- An `expect` on bytes of the right length is the bytes. -/
theorem expectArray_bind {α : Type} {n : ℕ} {bytes : Bytes} (h : bytes.length = n)
    (k : Bytes → MReader α) : ((liftM (expectArray n bytes) : MReader Bytes) >>= k) = k bytes := by
  rw [expectArray, if_pos h]
  rfl

theorem readSize_realises (maximum : ℕ) (what : String) :
    Realises (readSize maximum what) (Serde.readSize maximum what) fun _ => True := by
  refine Traced.Realises.congr (Traced.Realises.get (q := fun _ _ => True) fun c₀ _ => ?_)
    fun _ _ => Iff.rfl
  refine (read_realises (by decide) what).bind_true fun bs c c' _ hread => ?_
  rw [expectArray_bind (read_length hread)]
  dsimp only
  by_cases hgt : ofBe bs > maximum
  · rw [if_pos hgt, if_pos hgt]
    exact Traced.Realises.err _
  · rw [if_neg hgt, if_neg hgt]
    exact Traced.Realises.pure _

theorem readSizeInData_realises (what : String) :
    Realises (readSizeInData what) (Serde.readSizeInData what) fun _ => True :=
  Traced.Realises.get (q := fun _ _ => True) fun c _ => readSize_realises c.data.length what

/-- A size read from the input fits a word. -/
theorem readSize_le {maximum n : ℕ} {what : String} {c c' : Cursor}
    (h : Serde.readSize maximum what c = .ok (n, c')) : n ≤ usizeMax := by
  obtain ⟨⟨c₀, c₁⟩, -, h⟩ := bind_eq_ok.1 h
  obtain ⟨⟨bs, c₂⟩, hread, h⟩ := bind_eq_ok.1 h
  dsimp only at h hread
  have hbs := ofBe_lt bs
  have hmax : (256 : ℕ) ^ SIZE_BYTES = usizeMax + 1 := by decide
  rw [read_length hread, hmax] at hbs
  by_cases hgt : ofBe bs > maximum
  · rw [if_pos hgt] at h
    cases h
  · rw [if_neg hgt] at h
    cases h
    omega

/-- A reservation goes well exactly if it is covered and fits the address space. -/
theorem withCapacity_realises (elementBytes count : ℕ) :
    Realises (withCapacity elementBytes count) (pure ()) fun c =>
      count ≤ c.data.length - c.offset ∧ count * elementBytes ≤ isizeMax where
  follows := by
    intro c _
    rw [withCapacity]
    by_cases hover : count * elementBytes > isizeMax
    · rw [if_pos hover]
      refine ⟨Or.inr ⟨_, rfl, rfl⟩, iff_of_false (fun hclean => ?_) fun h => ?_⟩
      · exact hclean.no_panic .capacityOverflow rfl
      · omega
    · rw [if_neg hover]
      refine ⟨Or.inl rfl, fun hclean => ⟨?_, by omega⟩, fun h => ⟨fun p hp => (by cases hp), ?_⟩⟩
      · exact hclean.good ⟨count, c.data.length - c.offset⟩ (List.mem_cons_self)
      · intro r hr
        rw [show r = ⟨count, c.data.length - c.offset⟩ from List.mem_singleton.1 hr]
        exact h.1
  stays := by
    intro c v c' hc h
    cases h
    exact ⟨hc, rfl⟩

theorem withReader_eq_bind {α : Type} {data : Bytes} {total : ℕ} (d : Reader α)
    (h : data.length ≤ total) :
    Serde.withReader data total d = d ⟨data, 0⟩ >>= fun r => .ok r.1 := by
  rw [Serde.withReader, if_neg (by omega)]
  cases d ⟨data, 0⟩ <;> rfl

/-- `Reader::new` in front of a decoder. -/
theorem withReader_follows {α : Type} {m : MReader α} {d : Reader α} {q : Cursor → Prop}
    (h : Realises m d q) {data : Bytes} (hdata : data.length ≤ isizeMax) (total : ℕ) :
    Follows (withReader data total m) (Serde.withReader data total d)
      (data.length ≤ total → q ⟨data, 0⟩) := by
  by_cases hgt : data.length > total
  · rw [withReader, Serde.withReader, if_pos hgt, if_pos hgt]
    exact (Traced.Follows.err _).congr (iff_of_true trivial fun hle => absurd hle (by omega))
  · rw [withReader, if_neg hgt, withReader_eq_bind d (by omega)]
    have hbody := h.follows ⟨data, 0⟩ ⟨Nat.zero_le _, hdata⟩
    refine (Traced.Follows.bind (k := fun r => pure r.1) (q := fun _ => True) hbody
      fun r _ => Traced.Follows.pure r.1).congr ?_
    exact ⟨fun hq _ => hq.1, fun hq => ⟨hq (by omega), fun _ _ => trivial⟩⟩

/-! ## What the reader accepts -/

theorem read_eq_ok_iff {size : ℕ} {what : String} {c c' : Cursor} {bs : Bytes}
    (hc : c.Valid isizeMax) : Serde.read size what c = .ok (bs, c') ↔ ∃ rest,
      c.data.drop c.offset = bs ++ rest ∧ bs.length = size ∧ c' = ⟨c.data, c.offset + size⟩ := by
  have hmax := isizeMax_le_usizeMax
  have hoff := hc.offset_le
  have hlen := hc.length_le
  constructor
  · intro h
    have hsize := read_length h
    rw [Serde.read] at h
    split_ifs at h with h1 h2
    simp only [Except.ok.injEq, Prod.mk.injEq] at h
    obtain ⟨rfl, rfl⟩ := h
    exact ⟨_, (List.take_append_drop size _).symm, hsize, rfl⟩
  · rintro ⟨rest, hsplit, rfl, rfl⟩
    have hle := congrArg List.length hsplit
    rw [List.length_drop, List.length_append] at hle
    rw [Serde.read, if_neg (by omega), if_neg (by omega), hsplit, List.take_left]

theorem readSize_eq_ok_iff {maximum n : ℕ} {what : String} {c c' : Cursor}
    (hc : c.Valid isizeMax) : Serde.readSize maximum what c = .ok (n, c') ↔
      n ≤ maximum ∧ n ≤ usizeMax ∧ (∃ rest, c.data.drop c.offset = toBe SIZE_BYTES n ++ rest) ∧
        c' = ⟨c.data, c.offset + SIZE_BYTES⟩ := by
  constructor
  · intro h
    have hword := readSize_le h
    obtain ⟨⟨c₀, c₁⟩, hget, h⟩ := bind_eq_ok.1 h
    cases hget
    obtain ⟨⟨bs, c₂⟩, hread, h⟩ := bind_eq_ok.1 h
    obtain ⟨rest, hsplit, hlen, rfl⟩ := (read_eq_ok_iff hc).1 hread
    dsimp only at h
    by_cases hgt : ofBe bs > maximum
    · rw [if_pos hgt] at h
      cases h
    · rw [if_neg hgt] at h
      cases h
      refine ⟨Nat.le_of_not_lt hgt, hword, ⟨rest, ?_⟩, rfl⟩
      rw [hsplit, ← hlen, toBe_ofBe]
  · rintro ⟨hmax, hword, ⟨rest, hsplit⟩, rfl⟩
    have hread : Serde.read SIZE_BYTES what c =
        .ok (toBe SIZE_BYTES n, ⟨c.data, c.offset + SIZE_BYTES⟩) :=
      (read_eq_ok_iff hc).2 ⟨rest, hsplit, length_toBe _ _, rfl⟩
    have hof : ofBe (toBe SIZE_BYTES n) = n := ofBe_toBe_of_lt (by
      have : usizeMax < 256 ^ SIZE_BYTES := by decide
      omega)
    refine bind_eq_ok.2 ⟨(c, c), rfl, bind_eq_ok.2 ⟨_, hread, ?_⟩⟩
    dsimp only
    rw [hof, if_neg (by omega)]
    rfl

theorem readFramed_eq_ok_iff {what what' : String} {c c' : Cursor} {bs : Bytes}
    (hc : c.Valid isizeMax) : readFramed what what' c = .ok (bs, c') ↔ ∃ rest,
      c.data.drop c.offset = frame bs ++ rest ∧ c' = ⟨c.data, c.offset + (frame bs).length⟩ := by
  have hmax := isizeMax_le_usizeMax
  have hoff := hc.offset_le
  have hlen := hc.length_le
  -- Past the frame of `n` the rest of the input is dropped.
  have hpast : ∀ n rest, c.data.drop c.offset = toBe SIZE_BYTES n ++ rest →
      Cursor.Valid isizeMax ⟨c.data, c.offset + SIZE_BYTES⟩ ∧
        c.data.drop (c.offset + SIZE_BYTES) = rest := by
    intro n rest hsplit
    have hle := congrArg List.length hsplit
    rw [List.length_drop, List.length_append, length_toBe] at hle
    refine ⟨⟨by simp only; omega, hlen⟩, ?_⟩
    rw [← List.drop_drop, hsplit, List.drop_left' (length_toBe _ _)]
  constructor
  · intro h
    obtain ⟨⟨n, c₁⟩, hsize, hread⟩ := bind_eq_ok.1 h
    have hsize' : Serde.readSize c.data.length what c = .ok (n, c₁) := hsize
    obtain ⟨-, -, ⟨rest, hsplit⟩, rfl⟩ := (readSize_eq_ok_iff hc).1 hsize'
    obtain ⟨hvalid, hdrop⟩ := hpast n rest hsplit
    obtain ⟨rest', hsplit', rfl, rfl⟩ := (read_eq_ok_iff hvalid).1 hread
    refine ⟨rest', ?_, ?_⟩
    · rw [hsplit, ← hdrop, hsplit', frame, List.append_assoc]
    · rw [Nesting.length_frame, Nat.add_assoc]
  · rintro ⟨rest, hsplit, rfl⟩
    rw [frame, List.append_assoc] at hsplit
    have hle := congrArg List.length hsplit
    simp only [List.length_drop, List.length_append, length_toBe] at hle
    obtain ⟨hvalid, hdrop⟩ := hpast bs.length _ hsplit
    have hsize : Serde.readSize c.data.length what c =
        .ok (bs.length, ⟨c.data, c.offset + SIZE_BYTES⟩) :=
      (readSize_eq_ok_iff hc).2 ⟨by omega, by omega, ⟨_, hsplit⟩, rfl⟩
    refine bind_eq_ok.2 ⟨_, hsize, ?_⟩
    · refine (read_eq_ok_iff hvalid).2 ⟨rest, hdrop, rfl, ?_⟩
      rw [Nesting.length_frame, Nat.add_assoc]

/-! ## Leaves -/

theorem readString_realises (maxStringBytes : ℕ) :
    Realises (readString maxStringBytes) (Serde.readString maxStringBytes) fun _ => True := by
  refine (readSize_realises maxStringBytes "string length").bind_true fun length c c' _ hsize => ?_
  refine Traced.Realises.get (q := fun _ _ => True) fun c₀ _ => ?_
  refine (read_realises (readSize_le hsize) "string").bind_true fun bytes _ _ _ _ => ?_
  cases fromUtf8 bytes with
  | none => exact Traced.Realises.err _
  | some s => exact Traced.Realises.pure s

/-- A primitive decoder: one read of fixed width, then a conversion. -/
theorem fixed_follows {T : Type} {size : ℕ} {name : String} {k : Bytes → MReader T} {f : Bytes → T}
    (hsize : size ≤ usizeMax) (hk : ∀ bytes : Bytes, bytes.length = size → k bytes = pure (f bytes))
    {data : Bytes} (hdata : data.length ≤ isizeMax) :
    Follows (withReader data usizeMax (read size name >>= k))
      (Serde.withReader data usizeMax (Serde.read size name >>= fun bs => pure (f bs))) True := by
  have hbody : Realises (read size name >>= k) (Serde.read size name >>= fun bs => pure (f bs))
      fun _ => True := by
    refine (read_realises hsize name).bind_true fun bytes _ _ _ hread => ?_
    rw [hk bytes (read_length hread)]
    exact Traced.Realises.pure _
  exact (withReader_follows hbody hdata usizeMax).congr (by simp)

theorem unsigned_follows {T : Type} {name : String} {size : ℕ} (hsize : size ≤ usizeMax)
    (toNat : T → ℕ) (ofNat : ℕ → T) {data : Bytes} (hdata : data.length ≤ isizeMax) :
    Follows (unsigned name size ofNat data)
      ((unsignedSerde name size toNat ofNat).deserialize data) True :=
  fixed_follows (f := fun bs => ofNat (ofBe bs)) hsize
    (fun _ hlen => expectArray_bind hlen fun bs => pure (ofNat (ofBe bs))) hdata

theorem signed_follows {T U : Type} [XorOp U] {name : String} {size : ℕ} (hsize : size ≤ usizeMax)
    (asUnsigned : T → U) (asSigned : U → T) (toNat : U → ℕ) (ofNat : ℕ → U) (mask : U)
    {data : Bytes} (hdata : data.length ≤ isizeMax) :
    Follows (signed name size asSigned ofNat mask data)
      ((signedSerde name size asUnsigned asSigned toNat ofNat mask).deserialize data) True :=
  fixed_follows (f := fun bs => asSigned (ofNat (ofBe bs) ^^^ mask)) hsize
    (fun _ hlen => expectArray_bind hlen fun bs => pure (asSigned (ofNat (ofBe bs) ^^^ mask))) hdata

/-- A decoder that converts what another one returned. -/
theorem Follows.then {α β : Type} {run : Run α} {x : Except SerdeError α} {k : α → Run β}
    {k' : α → Except SerdeError β} (h : Follows run x True) (hk : ∀ a, Follows (k a) (k' a) True) :
    Follows (run >>= k) (x >>= k') True :=
  (Traced.Follows.bind (q := fun _ => True) h fun a _ => hk a).congr (by simp)

theorem prim_follows {T : Type} [ValueEq T] (p : Prim T) {data : Bytes}
    (hdata : data.length ≤ isizeMax) : Follows (prim p data) (p.serde.deserialize data) True := by
  cases p with
  | bool =>
    refine fixed_follows (f := fun bs => bs.headD 0 != 0) (by decide) (fun bytes hlen => ?_) hdata
    obtain ⟨b, rfl⟩ := List.length_eq_one_iff.1 hlen
    rfl
  | int8 => exact signed_follows (by decide) _ _ _ _ _ hdata
  | uint8 => exact unsigned_follows (by decide) _ _ hdata
  | int16 => exact signed_follows (by decide) _ _ _ _ _ hdata
  | uint16 => exact unsigned_follows (by decide) _ _ hdata
  | int32 => exact signed_follows (by decide) _ _ _ _ _ hdata
  | uint32 => exact unsigned_follows (by decide) _ _ hdata
  | int64 => exact signed_follows (by decide) _ _ _ _ _ hdata
  | uint64 => exact unsigned_follows (by decide) _ _ hdata
  | rune =>
    refine Follows.then (unsigned_follows (by decide) UInt32.toNat UInt32.ofNat hdata)
      fun encoded => ?_
    cases charFromU32 encoded with
    | none => exact Traced.Follows.err _
    | some c => exact Traced.Follows.pure c
  | float32 =>
    exact Follows.then (unsigned_follows (by decide) UInt32.toNat UInt32.ofNat hdata)
      fun bits => Traced.Follows.pure (F32.mk bits)
  | float64 =>
    exact Follows.then (unsigned_follows (by decide) UInt64.toNat UInt64.ofNat hdata)
      fun bits => Traced.Follows.pure (F64.mk bits)

/-! ## Containers -/

/-- A machine decoder of whole slices follows a serde; it is clean on the slices that satisfy
`J`. -/
def FollowsSerde {T : Type} (inner : Bytes → Run T) (s : Serde T) (J : Bytes → Prop) : Prop :=
  ∀ data : Bytes, data.length ≤ isizeMax → Follows (inner data) (s.deserialize data) (J data)

/-- The bytes were decoded. -/
def Accepted {T : Type} (s : Serde T) (data : Bytes) : Prop := ∃ v, s.deserialize data = .ok v

section Containers

variable {T : Type} {inner : Bytes → Run T} {s : Serde T} {J : Bytes → Prop}

/-- A slice is no longer than the input it was cut from. -/
theorem read_le {size : ℕ} {what : String} {c c' : Cursor} {bs : Bytes} (hc : c.Valid isizeMax)
    (h : Serde.read size what c = .ok (bs, c')) : bs.length ≤ isizeMax := by
  obtain ⟨rest, hsplit, -, -⟩ := (read_eq_ok_iff hc).1 h
  have hlen := congrArg List.length hsplit
  rw [List.length_drop, List.length_append] at hlen
  have := hc.length_le
  omega

/-- Reading a slice and decoding it. -/
theorem readSlice_realises {m : MReader Bytes} {d : Reader Bytes} (h : Realises m d fun _ => True)
    (hle : ∀ c bs c', c.Valid isizeMax → d c = .ok (bs, c') → bs.length ≤ isizeMax)
    (hinner : FollowsSerde inner s J) :
    Realises (m >>= fun bs => liftM (inner bs)) (d >>= fun bs => liftM (s.deserialize bs))
      fun c => ∀ bs c', d c = .ok (bs, c') → J bs := by
  refine (h.bind (r := fun bs _ => J bs) fun bs c c' hc hd => ?_).congr fun c _ => ?_
  · exact Traced.Realises.lift (hinner bs (hle c bs c' hc hd))
  · exact and_iff_right trivial

theorem readFramed_realises (what what' : String) :
    Realises (do let length ← readSizeInData what
                 read length what') (readFramed what what') fun _ => True := by
  refine (readSizeInData_realises what).bind_true fun length c c' _ hsize => ?_
  exact read_realises (readSize_le hsize) what'

theorem readInner_realises (hinner : FollowsSerde inner s J) (what what' : String) :
    Realises (readInner inner what what') (Serde.readInner s what what') fun c =>
      ∀ p rest, c.data.drop c.offset = frame p ++ rest → J p := by
  have hle : ∀ c bs c', c.Valid isizeMax → readFramed what what' c = .ok (bs, c') →
      bs.length ≤ isizeMax := by
    intro c bs c' hc h
    obtain ⟨⟨n, c₁⟩, hsize, hread⟩ := bind_eq_ok.1 h
    obtain ⟨hc₁, -⟩ := (readSizeInData_realises what).stays c n c₁ hc hsize
    exact read_le hc₁ hread
  have h := readSlice_realises (readFramed_realises what what') hle hinner
  rw [← readInner_eq, bind_assoc] at h
  refine Traced.Realises.congr h fun c hc => ?_
  constructor
  · intro hJ p rest hsplit
    exact hJ p _ ((readFramed_eq_ok_iff hc).2 ⟨rest, hsplit, rfl⟩)
  · intro hJ p c' hread
    obtain ⟨rest, hsplit, -⟩ := (readFramed_eq_ok_iff hc).1 hread
    exact hJ p rest hsplit

/-- What one framed element of an `ArraySerde` accepts. -/
theorem readInner_eq_ok_iff {what what' : String} {c c' : Cursor} (hc : c.Valid isizeMax) :
    (∃ v, Serde.readInner s what what' c = .ok (v, c')) ↔ ∃ p rest,
      c.data.drop c.offset = frame p ++ rest ∧ True ∧ Accepted s p ∧
        c' = ⟨c.data, c.offset + (frame p).length⟩ := by
  rw [readInner_eq]
  constructor
  · rintro ⟨v, h⟩
    obtain ⟨⟨p, c₁⟩, hread, hdec⟩ := bind_eq_ok.1 h
    obtain ⟨rest, hsplit, rfl⟩ := (readFramed_eq_ok_iff hc).1 hread
    dsimp only at hdec
    cases hs : s.deserialize p with
    | error e =>
      rw [hs] at hdec
      cases hdec
    | ok w =>
      rw [hs] at hdec
      cases hdec
      exact ⟨p, rest, hsplit, trivial, ⟨_, hs⟩, rfl⟩
  · rintro ⟨p, rest, hsplit, -, ⟨v, hv⟩, rfl⟩
    refine ⟨v, bind_eq_ok.2 ⟨_, (readFramed_eq_ok_iff hc).2 ⟨rest, hsplit, rfl⟩, ?_⟩⟩
    dsimp only
    rw [hv]
    rfl

/-- What one packed element of a `FixedSizeArraySerde` accepts. -/
theorem readPacked_eq_ok_iff {size : ℕ} {what : String} {c c' : Cursor} (hc : c.Valid isizeMax) :
    (∃ v, (Serde.read size what >>= fun bs => liftM (s.deserialize bs) : Reader T) c =
      .ok (v, c')) ↔ ∃ p rest, c.data.drop c.offset = id p ++ rest ∧ p.length = size ∧
        Accepted s p ∧ c' = ⟨c.data, c.offset + (id p).length⟩ := by
  constructor
  · rintro ⟨v, h⟩
    obtain ⟨⟨p, c₁⟩, hread, hdec⟩ := bind_eq_ok.1 h
    obtain ⟨rest, hsplit, hlen, rfl⟩ := (read_eq_ok_iff hc).1 hread
    dsimp only at hdec
    cases hs : s.deserialize p with
    | error e =>
      rw [hs] at hdec
      cases hdec
    | ok w =>
      rw [hs] at hdec
      cases hdec
      exact ⟨p, rest, hsplit, hlen, ⟨_, hs⟩, by rw [id, hlen]⟩
  · rintro ⟨p, rest, hsplit, hlen, ⟨v, hv⟩, rfl⟩
    refine ⟨v, bind_eq_ok.2 ⟨_, (read_eq_ok_iff hc).2 ⟨rest, hsplit, hlen, rfl⟩, ?_⟩⟩
    dsimp only [id]
    rw [hv, hlen]
    rfl

theorem readPacked_realises (hinner : FollowsSerde inner s J) {size : ℕ} (hsize : size ≤ usizeMax)
    (what : String) :
    Realises (read size what >>= fun bs => liftM (inner bs))
      (Serde.read size what >>= fun bs => liftM (s.deserialize bs)) fun c =>
        ∀ p rest, c.data.drop c.offset = id p ++ rest → p.length = size → J p := by
  refine (readSlice_realises (read_realises hsize what) (fun _ _ _ => read_le) hinner).congr
    fun c hc => ?_
  constructor
  · intro hJ p rest hsplit hlen
    exact hJ p _ ((read_eq_ok_iff hc).2 ⟨rest, hsplit, hlen, rfl⟩)
  · intro hJ p c' hread
    obtain ⟨rest, hsplit, hlen, -⟩ := (read_eq_ok_iff hc).1 hread
    exact hJ p rest hsplit hlen

/-- Reserving for `count` elements, then reading them. -/
theorem reserveThen_realises {element : MReader T} {d : Reader T} {q : Cursor → Prop}
    (h : Realises element d q) (elementBytes count : ℕ) :
    Realises (reserveThen element elementBytes count) (d.times count) fun c =>
      (count ≤ c.data.length - c.offset ∧ count * elementBytes ≤ isizeMax) ∧
        Traced.Every d q count c := by
  refine ((withCapacity_realises elementBytes count).bind (r := fun _ => Traced.Every d q count)
    fun _ _ _ _ _ => h.times count).congr fun c _ => ?_
  refine and_congr_right fun _ => ⟨fun hall => hall () c rfl, fun hall v c' hc' => ?_⟩
  cases hc'
  exact hall

theorem fixedPayload_run (elementBytes elementSize count : ℕ) (c : Cursor) :
    fixedPayload inner elementBytes elementSize count c =
      match checkedMul count elementSize with
      | none => Traced.halt (.err ⟨"array size overflow", c.offset⟩)
      | some payloadSize =>
        if payloadSize > saturatingSub c.data.length c.offset then
          Traced.halt (.err ⟨"fixed-size array payload is truncated", c.offset⟩)
        else reserveThen (do inner (← read elementSize "array element")) elementBytes count c := by
  let elements : MReader (List T) :=
    reserveThen (do inner (← read elementSize "array element")) elementBytes count
  let checked (payloadSize : ℕ) (c' : Cursor) : MReader (List T) :=
    if payloadSize > saturatingSub c'.data.length c.offset then
      fail ⟨"fixed-size array payload is truncated", c.offset⟩
    else elements
  change (match checkedMul count elementSize with
    | none => fail ⟨"array size overflow", c.offset⟩
    | some payloadSize => get >>= checked payloadSize : MReader (List T)) c = _
  cases checkedMul count elementSize with
  | none => rfl
  | some payloadSize =>
    change checked payloadSize c c = _
    by_cases hgt : payloadSize > saturatingSub c.data.length c.offset
    · simp only [checked, if_pos hgt]
      rfl
    · simp only [checked, if_neg hgt]
      rfl

/-- `FixedSizeArraySerde` reserves only what the payload covers. -/
theorem fixedPayload_realises (hinner : FollowsSerde inner s J) {elementSize : ℕ}
    (hpos : 0 < elementSize) (hsize : elementSize ≤ usizeMax) (elementBytes count : ℕ) :
    Realises (fixedPayload inner elementBytes elementSize count)
      (Serde.fixedPayload s elementSize count) fun c =>
        count * elementSize ≤ c.data.length - c.offset → count * elementBytes ≤ isizeMax ∧
          Traced.Every
            (Serde.read elementSize "array element" >>= fun bs => liftM (s.deserialize bs))
            (fun c => ∀ p rest, c.data.drop c.offset = id p ++ rest → p.length = elementSize → J p)
            count c where
  follows := by
    intro c hc
    have hmax := isizeMax_le_usizeMax
    have hlen := hc.length_le
    have hreserve := (reserveThen_realises (readPacked_realises hinner hsize "array element")
      elementBytes count).follows c hc
    rw [fixedPayload_apply, fixedPayload_run, checkedMul_eq, saturatingSub_eq (by omega)]
    by_cases hover : count * elementSize > usizeMax
    · rw [if_pos hover, if_pos hover]
      exact (Traced.Follows.err _).congr (iff_of_true trivial fun hle => absurd hle (by omega))
    · rw [if_neg hover, if_neg hover]
      dsimp only
      by_cases hshort : count * elementSize > c.data.length - c.offset
      · rw [if_pos hshort, if_pos hshort]
        exact (Traced.Follows.err _).congr (iff_of_true trivial fun hle => absurd hle (by omega))
      · rw [if_neg hshort, if_neg hshort]
        -- The payload has at least one byte per element.
        have hcovered : count ≤ c.data.length - c.offset :=
          (Nat.le_mul_of_pos_right count hpos).trans (Nat.le_of_not_lt hshort)
        refine Traced.Follows.congr hreserve ⟨fun h _ => ⟨h.1.2, h.2⟩, fun h => ?_⟩
        obtain ⟨hbytes, hall⟩ := h (Nat.le_of_not_lt hshort)
        exact ⟨⟨hcovered, hbytes⟩, hall⟩
  stays := by
    intro c v c' hc h
    rw [fixedPayload_apply] at h
    split_ifs at h
    exact ((readPacked_realises hinner hsize "array element").times count).stays c v c' hc h

/-- A map or a pair: the second part is only reached past an accepted first part. -/
theorem pair_realises {A B C : Type} {a : Bytes → Run A} {b : Bytes → Run B} {sa : Serde A}
    {sb : Serde B} {Ja Jb : Bytes → Prop} (ha : FollowsSerde a sa Ja) (hb : FollowsSerde b sb Jb)
    (w₁ w₂ w₃ w₄ : String) {combine : A → B → MReader C} {combine' : A → B → Reader C}
    (hcombine : ∀ x y, Realises (combine x y) (combine' x y) fun _ => True) :
    Realises (pair a b w₁ w₂ w₃ w₄ combine) (pairReader sa sb w₁ w₂ w₃ w₄ combine') fun c =>
      (∀ p rest, c.data.drop c.offset = frame p ++ rest → Ja p) ∧
        ∀ p p' rest, c.data.drop c.offset = frame p ++ (frame p' ++ rest) → Accepted sa p →
          Jb p' := by
  have hsecond : ∀ x : A, Realises (readInner b w₃ w₄ >>= fun y => combine x y)
      (Serde.readInner sb w₃ w₄ >>= fun y => combine' x y) fun c =>
        ∀ p rest, c.data.drop c.offset = frame p ++ rest → Jb p := by
    intro x
    refine ((readInner_realises hb w₃ w₄).bind (r := fun _ _ => True)
      fun y _ _ _ _ => hcombine x y).congr fun c _ => ?_
    exact and_iff_left fun _ _ _ => trivial
  refine ((readInner_realises ha w₁ w₂).bind fun x _ _ _ _ => hsecond x).congr fun c hc => ?_
  refine and_congr_right fun _ => ⟨fun h p p' rest hsplit hacc => ?_, fun h x c' hread p' rest => ?_⟩
  · have hfirst : ∃ v, Serde.readInner sa w₁ w₂ c =
        .ok (v, ⟨c.data, c.offset + (frame p).length⟩) :=
      (readInner_eq_ok_iff hc).2 ⟨p, _, hsplit, trivial, hacc, rfl⟩
    obtain ⟨x, hx⟩ := hfirst
    refine h x _ hx p' rest ?_
    dsimp only
    rw [← List.drop_drop, hsplit, List.drop_left]
  · obtain ⟨p, rest', hsplit, -, hacc, rfl⟩ := (readInner_eq_ok_iff hc).1 ⟨x, hread⟩
    intro hsplit'
    refine h p p' rest ?_ hacc
    dsimp only at hsplit'
    rw [← List.drop_drop, hsplit, List.drop_left] at hsplit'
    rw [hsplit, hsplit']

end Containers

end Machine

/-! ## Which inputs are safe -/

/-- An array decoder with these limits goes on past the count of `data`, which is `count`, with
`rest` still to read. -/
structure Announces (limits : SerdeLimits) (data : Bytes) (count : ℕ) (rest : Bytes) : Prop where
  split : data = toBe SIZE_BYTES count ++ rest
  word : count ≤ usizeMax
  elements : count ≤ limits.maxContainerElements
  total : data.length ≤ limits.maxTotalBytes

/-- The cursor behind the count. -/
theorem Announces.cursor {limits : SerdeLimits} {data rest : Bytes} {count : ℕ}
    (h : Announces limits data count rest) (hdata : data.length ≤ isizeMax) :
    Cursor.Valid isizeMax ⟨data, SIZE_BYTES⟩ ∧ data.drop SIZE_BYTES = rest ∧
      data.length - SIZE_BYTES = rest.length := by
  have hlen := congrArg List.length h.split
  rw [List.length_append, length_toBe] at hlen
  refine ⟨⟨by dsimp only; omega, hdata⟩, ?_, by omega⟩
  rw [h.split, List.drop_left' (length_toBe _ _)]

namespace Nesting

/-- The element widths of `FixedSizeArraySerde` are positive words. -/
def Positive {T : Type} [ValueEq T] : Nesting T → Prop
  | .prim _ | .string _ | .bytes _ | .stringArray _ => True
  | .fixedSizeArray element elementSize _ =>
    (0 < elementSize ∧ elementSize ≤ usizeMax) ∧ element.Positive
  | .array element _ => element.Positive
  | .map keys values => keys.Positive ∧ values.Positive
  | .keyValue key value => key.Positive ∧ value.Positive

/-- Every count that a `StringArraySerde` or an `ArraySerde` is handed on `data` is covered by the
bytes after it, and the elements of every array fit `isize::MAX` bytes of memory. The bytes an
inner decoder is handed are those that stand in its place behind parts that were accepted. -/
def Justified (sizeOf : Type → ℕ) {T : Type} [ValueEq T] : Nesting T → Bytes → Prop
  | .prim _, _ | .string _, _ | .bytes _, _ => True
  | @Nesting.fixedSizeArray T _ element elementSize limits, data =>
    ∀ count rest, Announces limits data count rest → count * elementSize ≤ rest.length →
      count * sizeOf T ≤ isizeMax ∧
      ∀ (pre : List Bytes) (p rest' : Bytes), rest = pre.flatten ++ p ++ rest' →
        pre.length < count → (∀ p' ∈ pre, p'.length = elementSize ∧
          Machine.Accepted element.serde p') → p.length = elementSize → element.Justified sizeOf p
  | .stringArray limits, data =>
    ∀ count rest, Announces limits data count rest →
      count ≤ rest.length ∧ count * sizeOf String ≤ isizeMax
  | @Nesting.array T _ element limits, data =>
    ∀ count rest, Announces limits data count rest →
      (count ≤ rest.length ∧ count * sizeOf T ≤ isizeMax) ∧
      ∀ (pre : List Bytes) (p rest' : Bytes),
        rest = (pre.map frame).flatten ++ frame p ++ rest' → pre.length < count →
          (∀ p' ∈ pre, Machine.Accepted element.serde p') → element.Justified sizeOf p
  | .map keys values, data =>
    (∀ p rest, data = frame p ++ rest → keys.Justified sizeOf p) ∧
      ∀ p p' rest, data = frame p ++ (frame p' ++ rest) → Machine.Accepted keys.serde p →
        values.Justified sizeOf p'
  | .keyValue key value, data =>
    (∀ p rest, data = frame p ++ rest → key.Justified sizeOf p) ∧
      ∀ p p' rest, data = frame p ++ (frame p' ++ rest) → Machine.Accepted key.serde p →
        value.Justified sizeOf p'

/-! ## The main result -/

open Serde.Machine

/-- A count in front of a payload. -/
theorem counted_follows {T : Type} {limits : SerdeLimits} {m : ℕ → MReader T} {d : ℕ → Reader T}
    {Q : ℕ → Cursor → Prop} (h : ∀ count, count ≤ usizeMax → Realises (m count) (d count) (Q count))
    {data : Bytes} (hdata : data.length ≤ isizeMax) :
    Follows (Machine.withReader data limits.maxTotalBytes
        (Machine.readSize limits.maxContainerElements "array count" >>= m))
      (Serde.withReader data limits.maxTotalBytes
        (Serde.readSize limits.maxContainerElements "array count" >>= d))
      (∀ count rest, Announces limits data count rest → Q count ⟨data, SIZE_BYTES⟩) := by
  have hvalid : Cursor.Valid isizeMax ⟨data, 0⟩ := ⟨Nat.zero_le _, hdata⟩
  have hbody := (readSize_realises limits.maxContainerElements "array count").bind
    fun count _ _ _ hsize => h count (readSize_le hsize)
  refine (withReader_follows hbody hdata limits.maxTotalBytes).congr ?_
  constructor
  · intro hq count rest hann
    refine (hq hann.total).2 count _ ((readSize_eq_ok_iff hvalid).2
      ⟨hann.elements, hann.word, ⟨rest, hann.split⟩, ?_⟩)
    rw [Nat.zero_add]
  · intro hq htotal
    refine ⟨trivial, fun count c' hread => ?_⟩
    obtain ⟨hel, hword, ⟨rest, hsplit⟩, rfl⟩ := (readSize_eq_ok_iff hvalid).1 hread
    rw [Nat.zero_add]
    exact hq count rest ⟨hsplit, hword, hel, htotal⟩

theorem mapCombine_realises {K V : Type} [DecidableEq K] (keys : List K) (values : List V) :
    Realises (do
        if keys.length ≠ values.length then
          let offset := (← get).offset
          fail ⟨"map key and value counts do not match", offset⟩
        else return collect (keys.zip values))
      (do
        if keys.length ≠ values.length then
          throw ⟨"map key and value counts do not match", (← get).offset⟩
        else return collect (keys.zip values) : Reader (IterMap K V)) fun _ => True := by
  by_cases hne : keys.length ≠ values.length
  · simp only [if_pos hne]
    exact Traced.Realises.get (q := fun _ _ => True) fun c _ => Traced.Realises.err _
  · simp only [if_neg hne]
    exact Traced.Realises.pure _

/-- **Every nesting follows its mathematical reading**, and is clean on the justified inputs. The
induction follows the nesting; a container is clean where its own reservation is covered and its
inner decoders are clean on what they are handed. -/
theorem decode_follows (sizeOf : Type → ℕ) {T : Type} [ValueEq T] (c : Nesting T)
    (hpos : c.Positive) :
    FollowsSerde (c.decode sizeOf) c.serde (c.Justified sizeOf) := by
  have hmax := isizeMax_le_usizeMax
  induction c with
  | prim p => exact fun data hdata => prim_follows p hdata
  | string limits =>
    intro data hdata
    exact (withReader_follows (readString_realises limits.maxStringBytes) hdata
      limits.maxTotalBytes).congr (iff_of_true (fun _ => trivial) trivial)
  | bytes limits =>
    intro data hdata
    have hbody := (readSize_realises limits.maxBytes "bytes length").bind_true
      fun length _ _ _ hsize => read_realises (readSize_le hsize) "bytes"
    exact (withReader_follows hbody hdata limits.maxTotalBytes).congr
      (iff_of_true (fun _ => trivial) trivial)
  | @fixedSizeArray T _ element elementSize limits ih =>
    intro data hdata
    obtain ⟨⟨hsize, hword⟩, hpos'⟩ := hpos
    refine (counted_follows (fun count _ => fixedPayload_realises (ih hpos') hsize hword
      (sizeOf T) count) hdata).congr ?_
    refine forall₃_congr fun count rest hann => ?_
    obtain ⟨hvalid, hdrop, hlen⟩ := hann.cursor hdata
    rw [Traced.every_iff_pieces (fun c c' hc => readPacked_eq_ok_iff hc) (fun c hc => Iff.rfl)
      count _ hvalid]
    simp only [hdrop, hlen, List.map_id, id]
  | stringArray limits =>
    intro data hdata
    refine (counted_follows (fun count _ => reserveThen_realises
      (readString_realises limits.maxStringBytes) (sizeOf String) count) hdata).congr ?_
    refine forall₃_congr fun count rest hann => ?_
    obtain ⟨hvalid, -, hlen⟩ := hann.cursor hdata
    have hevery : ∀ (d : Reader String) (n : ℕ) (c : Cursor),
        Traced.Every d (fun _ => True) n c := by
      intro d n
      induction n with
      | zero => exact fun _ => trivial
      | succ n ih => exact fun c => ⟨trivial, fun _ c' _ => ih c'⟩
    simp only [hlen]
    exact and_iff_left (hevery _ _ _)
  | @array T _ element limits ih =>
    intro data hdata
    refine (counted_follows (fun count _ => reserveThen_realises (readInner_realises (ih hpos)
      "array element length" "array element") (sizeOf T) count) hdata).congr ?_
    refine forall₃_congr fun count rest hann => ?_
    obtain ⟨hvalid, hdrop, hlen⟩ := hann.cursor hdata
    rw [Traced.every_iff_pieces (J := element.Justified sizeOf)
      (fun c c' hc => readInner_eq_ok_iff hc) (fun c hc => by simp only [true_implies]) count _
      hvalid]
    simp only [hdrop, hlen, true_and, true_implies]
  | map keys values ihk ihv =>
    intro data hdata
    have hbody := pair_realises (ihk hpos.1) (ihv hpos.2) "map keys length" "map keys"
      "map values length" "map values" mapCombine_realises
    have hrun := (withReader_follows hbody hdata usizeMax).congr
      (forall_prop_of_true (hdata.trans hmax))
    change Follows _ ((mapSerde keys.serde values.serde).deserialize data) _
    rw [mapSerde_deserialize]
    exact hrun
  | keyValue key value ihk ihv =>
    intro data hdata
    have hbody := pair_realises (ihk hpos.1) (ihv hpos.2) "key length" "key" "value length" "value"
      fun k v => Traced.Realises.pure (KeyValue.mk k v)
    have hrun := (withReader_follows hbody hdata usizeMax).congr
      (forall_prop_of_true (hdata.trans hmax))
    change Follows _ ((streamKeyValueSerde key.serde value.serde).deserialize data) _
    rw [streamKeyValueSerde_deserialize]
    exact hrun

/-- The claim of safety: the run ends with a value or an error, and every reservation asks for at
most as many elements as there are bytes left to read. -/
def Safe {T : Type} (run : Run T) : Prop :=
  ((∃ v, run.outcome = .ok v) ∨ ∃ e, run.outcome = .err e) ∧ ∀ r ∈ run.log, r.count ≤ r.remaining

theorem safe_iff_clean {T : Type} (run : Run T) :
    Safe run ↔ run.Clean Reservation.Covered := by
  constructor
  · rintro ⟨hout, hlog⟩
    refine ⟨fun p hp => ?_, hlog⟩
    rcases hout with ⟨v, hv⟩ | ⟨e, he⟩
    · rw [hv] at hp
      cases hp
    · rw [he] at hp
      cases hp
  · intro hclean
    refine ⟨?_, hclean.good⟩
    cases hout : run.outcome with
    | ok v => exact Or.inl ⟨v, rfl⟩
    | err e => exact Or.inr ⟨e, rfl⟩
    | panic p => exact absurd hout (hclean.no_panic p)

/-- **Decoding untrusted bytes.** For every layout of values in memory, every nesting and every byte
string: the machine run, with wrapping words and checked indices, ends as the reading with
unbounded numbers does or with a capacity overflow, and it is safe exactly on the justified
inputs. -/
theorem decode_safe_iff (sizeOf : Type → ℕ) {T : Type} [ValueEq T] (c : Nesting T)
    (hpos : c.Positive) (data : Bytes) (hdata : data.length ≤ isizeMax) :
    ((c.decode sizeOf data).outcome = .ofExcept (c.serde.deserialize data) ∨
      (c.decode sizeOf data).outcome = .panic .capacityOverflow) ∧
      (Safe (c.decode sizeOf data) ↔ c.Justified sizeOf data) := by
  have hfollows := c.decode_follows sizeOf hpos data hdata
  refine ⟨?_, (safe_iff_clean _).trans hfollows.clean_iff⟩
  rcases hfollows.agrees with hag | ⟨p, rfl, hpanic⟩
  · exact Or.inl hag
  · exact Or.inr hpanic

/-- One string of one byte: the count is covered by the nine bytes after it. -/
theorem decode_safe_iff_one_string :
    Safe ((stringArray SerdeLimits.default).decode (fun _ => 24)
      [0, 0, 0, 0, 0, 0, 0, 1, 0, 0, 0, 0, 0, 0, 0, 1, 97]) := by
  refine (decode_safe_iff (fun _ => 24) (stringArray SerdeLimits.default) trivial _
    (by decide)).2.2 fun count rest hann => ?_
  have hcount : count = 1 := by
    have hword : count < 256 ^ SIZE_BYTES := by
      have hmax : (256 : ℕ) ^ SIZE_BYTES = usizeMax + 1 := by decide
      have := hann.word
      omega
    have htake := congrArg (List.take SIZE_BYTES) hann.split
    rw [List.take_left' (length_toBe _ _)] at htake
    rw [← ofBe_toBe_of_lt hword, ← htake]
    rfl
  have hlen := congrArg List.length hann.split
  rw [List.length_append, length_toBe] at hlen
  have hrest : rest.length = 9 := by
    have h17 : List.length ([0, 0, 0, 0, 0, 0, 0, 1, 0, 0, 0, 0, 0, 0, 0, 1, 97] : Bytes) = 17 := rfl
    have h8 : SIZE_BYTES = 8 := rfl
    omega
  subst hcount
  exact ⟨by omega, by decide⟩

/-- A count of `u64::MAX` in front of nothing passes the default limits, and the reservation for
that many strings overflows. -/
theorem stringArraySerde_capacity_overflow :
    (stringArray SerdeLimits.default).Positive ∧
      ((stringArray SerdeLimits.default).decode (fun _ => 24) (List.replicate 8 0xFF)).outcome =
        .panic .capacityOverflow ∧
      ∃ r ∈ ((stringArray SerdeLimits.default).decode (fun _ => 24) (List.replicate 8 0xFF)).log,
        ¬ r.count ≤ r.remaining := by
  refine ⟨trivial, rfl, ⟨2 ^ 64 - 1, 0⟩, List.mem_singleton.2 rfl, by decide⟩

end Nesting

end ServiceLib.Serde
