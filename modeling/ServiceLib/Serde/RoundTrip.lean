import ServiceLib.Serde.Impl

/-!
# Round trip and self-delimitation

Every serde built by nesting the ones of `ServiceLib.Serde.Impl` with the default limits decodes
what it encodes, also when more bytes follow, and rejects every proper prefix of an encoding.

The proof is an induction over the nesting. `Decodes s b v` is what one encoding satisfies;
`Lawful s` is what an outer serde needs to know about an inner one. Each serde's decoder is shown
to consume exactly the encoding and to be stable under extension; the rest is
`Decoder.Consumes.proper_prefix`.
-/

namespace ServiceLib.Serde

open Decoder

/-! ## Equality of values -/

/-- Equality of values, up to the iteration order of the hash maps inside. -/
class ValueEq (T : Type) where
  eqv : T → T → Prop

/-- Types without hash maps inside, where `ValueEq` is equality: what `Eq + Hash` leaves as the
key types of a `HashMap`. -/
class KeyEq (T : Type) [ValueEq T] : Prop where
  eq_of_eqv : ∀ {a b : T}, ValueEq.eqv a b → a = b

section Instances

instance : ValueEq Bool := ⟨Eq⟩
instance : ValueEq Int8 := ⟨Eq⟩
instance : ValueEq UInt8 := ⟨Eq⟩
instance : ValueEq Int16 := ⟨Eq⟩
instance : ValueEq UInt16 := ⟨Eq⟩
instance : ValueEq Int32 := ⟨Eq⟩
instance : ValueEq UInt32 := ⟨Eq⟩
instance : ValueEq Int64 := ⟨Eq⟩
instance : ValueEq UInt64 := ⟨Eq⟩
instance : ValueEq Char := ⟨Eq⟩
instance : ValueEq F32 := ⟨Eq⟩
instance : ValueEq F64 := ⟨Eq⟩
instance : ValueEq String := ⟨Eq⟩

instance : KeyEq Bool := ⟨id⟩
instance : KeyEq Int8 := ⟨id⟩
instance : KeyEq UInt8 := ⟨id⟩
instance : KeyEq Int16 := ⟨id⟩
instance : KeyEq UInt16 := ⟨id⟩
instance : KeyEq Int32 := ⟨id⟩
instance : KeyEq UInt32 := ⟨id⟩
instance : KeyEq Int64 := ⟨id⟩
instance : KeyEq UInt64 := ⟨id⟩
instance : KeyEq Char := ⟨id⟩
instance : KeyEq String := ⟨id⟩

variable {T K V : Type} [ValueEq T] [ValueEq K] [ValueEq V]

instance : ValueEq (List T) := ⟨List.Forall₂ ValueEq.eqv⟩

/-- Hash maps are compared as finite maps. -/
instance [DecidableEq K] : ValueEq (IterMap K V) :=
  ⟨fun m m' => ∀ k, Option.Rel ValueEq.eqv (m.lookup k) (m'.lookup k)⟩

instance : ValueEq (KeyValue K V) :=
  ⟨fun a b => ValueEq.eqv a.key b.key ∧ ValueEq.eqv a.value b.value⟩

instance [KeyEq T] : KeyEq (List T) := ⟨fun h => by
  induction h with
  | nil => rfl
  | cons hab _ ih => rw [KeyEq.eq_of_eqv hab, ih]⟩

instance [KeyEq K] [KeyEq V] : KeyEq (KeyValue K V) := ⟨fun {a b} h => by
  cases a; cases b
  simp only [KeyValue.mk.injEq]
  exact ⟨KeyEq.eq_of_eqv h.1, KeyEq.eq_of_eqv h.2⟩⟩

end Instances

/-- A list of bytes is compared byte by byte. -/
theorem eqv_refl_of_eq {T : Type} [ValueEq T] (hT : ∀ a : T, ValueEq.eqv a a) (l : List T) :
    ValueEq.eqv l l :=
  List.forall₂_same.2 fun a _ => hT a

/-! ## The reader -/

theorem isizeMax_le_usizeMax : isizeMax ≤ usizeMax := by decide

theorem read_consumes {size : ℕ} {b : Bytes} (hb : b.length = size) (what : String) :
    Consumes isizeMax (read size what) b b := by
  intro front rest hlen
  have hmax := isizeMax_le_usizeMax
  have hle : front.length + size ≤ (front ++ b ++ rest).length := by simp [hb]
  subst hb
  simp only [read]
  rw [if_neg (by omega), if_neg (by omega), List.append_assoc, List.drop_left, List.take_left]

theorem read_stable (size : ℕ) (what : String) : Stable (read size what) := by
  intro data ext offset v c hoff h
  simp only [read] at h ⊢
  split_ifs at h with h1 h2
  simp only [Except.ok.injEq, Prod.mk.injEq] at h
  obtain ⟨rfl, rfl⟩ := h
  have hle : offset + size ≤ data.length := by omega
  have hlen : (data ++ ext).length = data.length + ext.length := List.length_append
  rw [if_neg h1, if_neg (by omega), List.drop_append_of_le_length hoff,
    List.take_append_of_le_length (by rw [List.length_drop]; omega)]
  exact ⟨rfl, hle, rfl⟩

theorem readSize_consumes {n maximum : ℕ} (hmax : n ≤ maximum) (hn : n ≤ usizeMax)
    (what : String) : Consumes isizeMax (readSize maximum what) (toBe SIZE_BYTES n) n := by
  have hof : ofBe (toBe SIZE_BYTES n) = n := ofBe_toBe_of_lt (by
    have : usizeMax < 256 ^ SIZE_BYTES := by decide
    omega)
  refine Consumes.getOffset (k := fun o => do
    let size := ofBe (← read SIZE_BYTES what)
    if size > maximum then throw ⟨what ++ " exceeds configured limit", o⟩ else pure size) ?_
  intro o
  have hcheck : Consumes isizeMax (if ofBe (toBe SIZE_BYTES n) > maximum then
      throw ⟨what ++ " exceeds configured limit", o⟩
      else pure (ofBe (toBe SIZE_BYTES n)) : Reader ℕ) [] n := by
    rw [hof, if_neg (by omega)]
    exact Consumes.pure isizeMax n
  have hboth := (read_consumes (length_toBe SIZE_BYTES n) what).bind (k := fun bs =>
    if ofBe bs > maximum then throw ⟨what ++ " exceeds configured limit", o⟩
    else pure (ofBe bs)) hcheck
  rwa [List.append_nil] at hboth

theorem readSize_stable (maximum : ℕ) (what : String) : Stable (readSize maximum what) := by
  refine Stable.getOffset (k := fun o => do
    let size := ofBe (← read SIZE_BYTES what)
    if size > maximum then throw ⟨what ++ " exceeds configured limit", o⟩ else pure size) ?_
  intro o
  refine (read_stable SIZE_BYTES what).bind fun bs => ?_
  dsimp only
  split_ifs
  · exact Stable.throw _
  · exact Stable.pure _

/-- A longer input only loosens the bound of `readSizeInData`. -/
theorem readSizeInData_stable (what : String) : Stable (readSizeInData what) := by
  intro data ext offset v c hoff h
  obtain ⟨hdata, hle, hext⟩ := readSize_stable data.length what data ext offset v c hoff h
  refine ⟨hdata, hle, ?_⟩
  change readSize (data ++ ext).length what ⟨data ++ ext, offset⟩ = _
  simp only [readSize, bind_eq_ok] at hext ⊢
  obtain ⟨p, hp, q, hq, hif⟩ := hext
  refine ⟨p, hp, q, hq, ?_⟩
  by_cases hgt : ofBe q.1 > data.length
  · rw [if_pos hgt] at hif
    cases hif
  · rw [if_neg hgt] at hif
    rwa [if_neg (by rw [List.length_append]; omega)]

/-! ## Frames -/

/-- A byte string preceded by its length. -/
def frame (b : Bytes) : Bytes := toBe SIZE_BYTES b.length ++ b

/-- `let length = reader.read_size(reader.data.len(), what)?; reader.read(length, what')?` -/
def readFramed (what what' : String) : Reader Bytes := do
  let length ← readSizeInData what
  read length what'

theorem readFramed_consumes {b : Bytes} (what what' : String) :
    Consumes isizeMax (readFramed what what') (frame b) b := by
  intro front rest hlen
  have hmax := isizeMax_le_usizeMax
  have hlen' : b.length ≤ (front ++ frame b ++ rest).length := by simp [frame]; omega
  have hsize : Consumes isizeMax (readSize (front ++ frame b ++ rest).length what)
      (toBe SIZE_BYTES b.length) b.length := readSize_consumes hlen' (by omega) what
  exact hsize.bind (k := fun length => read length what') (read_consumes rfl what') front rest hlen

theorem readFramed_stable (what what' : String) : Stable (readFramed what what') :=
  (readSizeInData_stable what).bind fun length => read_stable length what'

/-! ## What an encoding satisfies -/

/-- `b` decodes to `v`, whatever follows it, and no proper prefix of `b` decodes. -/
structure Decodes {T : Type} (s : Serde T) (b : Bytes) (v : T) : Prop where
  append : ∀ rest, (b ++ rest).length ≤ isizeMax → s.deserialize (b ++ rest) = .ok v
  properPrefix : ∀ p, p <+: b → p ≠ b → ∃ e, s.deserialize p = .error e

/-- Every encoding a serde produces decodes to an equal value. -/
def Lawful {T : Type} [ValueEq T] (s : Serde T) : Prop :=
  ∀ v b, s.serialize v = .ok b → b.length ≤ isizeMax → ∃ v', ValueEq.eqv v v' ∧ Decodes s b v'

/-- Every encoding of at most `m` bytes decodes to an equal value; what an outer serde needs to
know about an inner one to find its values again. -/
def Recovers {T : Type} [ValueEq T] (m : ℕ) (s : Serde T) : Prop :=
  ∀ v b, s.serialize v = .ok b → b.length ≤ m → ∃ v', ValueEq.eqv v v' ∧ s.deserialize b = .ok v'

theorem Decodes.exact {T : Type} {s : Serde T} {b : Bytes} {v : T} (h : Decodes s b v)
    (hb : b.length ≤ isizeMax) : s.deserialize b = .ok v := by
  simpa using h.append [] (by simpa using hb)

theorem Lawful.recovers {T : Type} [ValueEq T] {s : Serde T} (h : Lawful s) :
    Recovers isizeMax s := by
  intro v b hv hb
  obtain ⟨v', heq, hdec⟩ := h v b hv hb
  exact ⟨v', heq, hdec.exact hb⟩

theorem withReader_eq_ok {α : Type} {data : Bytes} {m : ℕ} (hdata : data.length ≤ m)
    {body : Reader α} {v : α} {c : Cursor} (h : body ⟨data, 0⟩ = .ok (v, c)) :
    withReader data m body = .ok v := by
  rw [withReader, if_neg (by omega), h]

theorem withReader_eq_error {α : Type} {data : Bytes} {m : ℕ} {body : Reader α} {e : SerdeError}
    (h : body ⟨data, 0⟩ = .error e) : ∃ e', withReader data m body = .error e' := by
  rw [withReader]
  split_ifs
  · exact ⟨_, rfl⟩
  · exact ⟨e, by rw [h]⟩

/-- A serde whose decoder consumes an encoding and is stable decodes it. -/
theorem decodes_of_consumes {T : Type} {s : Serde T} {m : ℕ} {body : Reader T} {b : Bytes} {v : T}
    (hs : ∀ data, s.deserialize data = withReader data m body) (hm : isizeMax ≤ m)
    (hc : Consumes isizeMax body b v) (hst : Stable body) (hb : b.length ≤ isizeMax) :
    Decodes s b v where
  append := by
    intro rest hrest
    rw [hs]
    exact withReader_eq_ok (hrest.trans hm) (hc.decode hrest)
  properPrefix := by
    intro p hp hne
    rw [hs]
    obtain ⟨e, he⟩ := hc.proper_prefix hst hb hp hne
    exact withReader_eq_error he

/-- Decoding an inner slice: one frame, then the inner serde. -/
theorem decode_slice_consumes {T : Type} {s : Serde T} {d : Reader Bytes} {b b' : Bytes} {v : T}
    (hd : Consumes isizeMax d b' b) (hv : s.deserialize b = .ok v) :
    Consumes isizeMax (d >>= fun bs => liftM (s.deserialize bs)) b' v := by
  have hlift : Consumes isizeMax (liftM (s.deserialize b) : Reader T) [] v := by
    rw [hv]
    exact Consumes.lift isizeMax v
  have hboth := hd.bind (k := fun bs => liftM (s.deserialize bs)) hlift
  rwa [List.append_nil] at hboth

theorem decode_slice_stable {T : Type} (s : Serde T) {d : Reader Bytes} (hd : Stable d) :
    Stable (d >>= fun bs => liftM (s.deserialize bs)) :=
  hd.bind fun bs => Stable.lift (s.deserialize bs)

/-- `inner.deserialize(reader.read(length)?)?` behind its length. -/
def readInner {T : Type} (s : Serde T) (what what' : String) : Reader T := do
  let length ← readSizeInData what
  s.deserialize (← read length what')

theorem readInner_eq {T : Type} (s : Serde T) (what what' : String) :
    readInner s what what' = readFramed what what' >>= fun bs => liftM (s.deserialize bs) := by
  rw [readInner, readFramed, bind_assoc]

theorem readInner_bind {T U : Type} (s : Serde T) (what what' : String) (k : T → Reader U) :
    (readInner s what what' >>= k) = readSizeInData what >>= fun length =>
      read length what' >>= fun bs => liftM (s.deserialize bs) >>= k := by
  simp only [readInner, bind_assoc]

theorem readInner_consumes {T : Type} {s : Serde T} {b : Bytes} {v : T} (what what' : String)
    (hv : s.deserialize b = .ok v) : Consumes isizeMax (readInner s what what') (frame b) v := by
  rw [readInner_eq]
  exact decode_slice_consumes (readFramed_consumes what what') hv

theorem readInner_stable {T : Type} (s : Serde T) (what what' : String) :
    Stable (readInner s what what') := by
  rw [readInner_eq]
  exact decode_slice_stable s (readFramed_stable what what')

/-! ## Primitive serdes -/

/-- A decoder that reads `size` bytes and converts them. -/
theorem decodes_fixed {T : Type} {s : Serde T} {size : ℕ} {name : String} {f : Bytes → T}
    (hs : ∀ data, s.deserialize data =
      withReader data usizeMax (read size name >>= fun bs => pure (f bs)))
    {b : Bytes} (hlen : b.length = size) (hb : b.length ≤ isizeMax) : Decodes s b (f b) := by
  refine decodes_of_consumes hs isizeMax_le_usizeMax ?_ ?_ hb
  · have hboth := (read_consumes hlen name).bind (k := fun bs => pure (f bs))
      (Consumes.pure isizeMax (f b))
    rwa [List.append_nil] at hboth
  · exact (read_stable size name).bind fun bs => Stable.pure (f bs)

theorem unsignedSerde_decodes {T : Type} {name : String} {size : ℕ} {toNat : T → ℕ}
    {ofNat : ℕ → T} (hlt : ∀ v, toNat v < 256 ^ size) (hof : ∀ v, ofNat (toNat v) = v) {v : T}
    {b : Bytes} (h : (unsignedSerde name size toNat ofNat).serialize v = .ok b)
    (hb : b.length ≤ isizeMax) : Decodes (unsignedSerde name size toNat ofNat) b v := by
  simp only [unsignedSerde, Except.ok.injEq] at h
  subst h
  have := decodes_fixed (s := unsignedSerde name size toNat ofNat) (f := fun bs => ofNat (ofBe bs))
    (fun _ => rfl) (length_toBe size (toNat v)) hb
  rwa [ofBe_toBe_of_lt (hlt v), hof] at this

theorem signedSerde_decodes {T U : Type} [XorOp U] {name : String} {size : ℕ} {asUnsigned : T → U}
    {asSigned : U → T} {toNat : U → ℕ} {ofNat : ℕ → U} {mask : U}
    (hlt : ∀ u, toNat u < 256 ^ size) (hof : ∀ u, ofNat (toNat u) = u)
    (hmask : ∀ v, asSigned (asUnsigned v ^^^ mask ^^^ mask) = v) {v : T} {b : Bytes}
    (h : (signedSerde name size asUnsigned asSigned toNat ofNat mask).serialize v = .ok b)
    (hb : b.length ≤ isizeMax) :
    Decodes (signedSerde name size asUnsigned asSigned toNat ofNat mask) b v := by
  simp only [signedSerde, Except.ok.injEq] at h
  subst h
  have := decodes_fixed (s := signedSerde name size asUnsigned asSigned toNat ofNat mask)
    (f := fun bs => asSigned (ofNat (ofBe bs) ^^^ mask)) (fun _ => rfl)
    (length_toBe size (toNat (asUnsigned v ^^^ mask))) hb
  rwa [ofBe_toBe_of_lt (hlt _), hof, hmask] at this

theorem boolSerde_decodes {v : Bool} {b : Bytes} (h : boolSerde.serialize v = .ok b)
    (hb : b.length ≤ isizeMax) : Decodes boolSerde b v := by
  simp only [boolSerde, Except.ok.injEq] at h
  subst h
  have := decodes_fixed (s := boolSerde) (f := fun bs => bs.headD 0 != 0) (fun _ => rfl) rfl hb
  cases v <;> exact this

theorem uint32Serde_decodes {v : UInt32} {b : Bytes} (h : uint32Serde.serialize v = .ok b)
    (hb : b.length ≤ isizeMax) : Decodes uint32Serde b v :=
  unsignedSerde_decodes (fun v => v.toNat_lt) (fun _ => UInt32.ofNat_toNat) h hb

theorem uint64Serde_decodes {v : UInt64} {b : Bytes} (h : uint64Serde.serialize v = .ok b)
    (hb : b.length ≤ isizeMax) : Decodes uint64Serde b v :=
  unsignedSerde_decodes (fun v => v.toNat_lt) (fun _ => UInt64.ofNat_toNat) h hb

/-- A serde that decodes through another one and converts the result. -/
theorem Decodes.map {T U : Type} {s : Serde T} {s' : Serde U} {f : T → Except SerdeError U}
    {b : Bytes} {v : T} {w : U} (h : Decodes s b v)
    (hs : ∀ data, s'.deserialize data = s.deserialize data >>= f) (hf : f v = .ok w) :
    Decodes s' b w where
  append := by
    intro rest hrest
    rw [hs, h.append rest hrest]
    exact hf
  properPrefix := by
    intro p hp hne
    obtain ⟨e, he⟩ := h.properPrefix p hp hne
    exact ⟨e, by rw [hs, he]; rfl⟩

theorem runeSerde_decodes {v : Char} {b : Bytes} (h : runeSerde.serialize v = .ok b)
    (hb : b.length ≤ isizeMax) : Decodes runeSerde b v := by
  have h32 : Decodes uint32Serde b v.val := uint32Serde_decodes h hb
  refine h32.map (fun _ => rfl) ?_
  simp [charFromU32, v.valid]

theorem float32Serde_decodes {v : F32} {b : Bytes} (h : float32Serde.serialize v = .ok b)
    (hb : b.length ≤ isizeMax) : Decodes float32Serde b v :=
  (uint32Serde_decodes (v := v.toBits) h hb).map (fun _ => rfl) rfl

theorem float64Serde_decodes {v : F64} {b : Bytes} (h : float64Serde.serialize v = .ok b)
    (hb : b.length ≤ isizeMax) : Decodes float64Serde b v :=
  (uint64Serde_decodes (v := v.toBits) h hb).map (fun _ => rfl) rfl

/-! ## Strings and byte sequences -/

theorem ite_error_eq_ok {ε α : Type} {c : Prop} [Decidable c] {e : ε} {x b : α} :
    (if c then Except.error e else Except.ok x) = Except.ok b ↔ ¬ c ∧ x = b := by
  by_cases hc : c <;> simp [hc]

theorem fromUtf8_asBytes (s : String) : fromUtf8 (asBytes s) = some s := by
  have hb : (⟨(asBytes s).toArray⟩ : ByteArray) = s.toByteArray := by simp [asBytes]
  rw [fromUtf8, hb, String.fromUTF8?, dif_pos s.isValidUTF8]
  rfl

/-- The decoder of one framed string, as `StringSerde` and `StringArraySerde` use it. -/
def readString (maxStringBytes : ℕ) : Reader String := do
  let length ← readSize maxStringBytes "string length"
  let offset := (← get).offset
  let bytes ← read length "string"
  match fromUtf8 bytes with
  | some s => pure s
  | none => throw ⟨"string is not valid UTF-8", offset⟩

theorem readString_consumes {maxStringBytes : ℕ} (s : String)
    (hs : (asBytes s).length ≤ maxStringBytes) (hu : (asBytes s).length ≤ usizeMax) :
    Consumes isizeMax (readString maxStringBytes) (frame (asBytes s)) s := by
  refine (readSize_consumes hs hu "string length").bind ?_
  refine Consumes.getOffset (k := fun offset => do
    let bytes ← read (asBytes s).length "string"
    match fromUtf8 bytes with
    | some s => pure s
    | none => throw ⟨"string is not valid UTF-8", offset⟩) fun offset => ?_
  have hmatch : Consumes isizeMax (match fromUtf8 (asBytes s) with
      | some s => pure s
      | none => throw ⟨"string is not valid UTF-8", offset⟩ : Reader String) [] s := by
    rw [fromUtf8_asBytes]
    exact Consumes.pure isizeMax s
  have hboth := (read_consumes (b := asBytes s) rfl "string").bind (k := fun bytes =>
    match fromUtf8 bytes with
    | some s => pure s
    | none => throw ⟨"string is not valid UTF-8", offset⟩) hmatch
  rwa [List.append_nil] at hboth

theorem readString_stable (maxStringBytes : ℕ) : Stable (readString maxStringBytes) := by
  refine (readSize_stable maxStringBytes "string length").bind fun length => ?_
  refine Stable.getOffset (k := fun offset => do
    let bytes ← read length "string"
    match fromUtf8 bytes with
    | some s => pure s
    | none => throw ⟨"string is not valid UTF-8", offset⟩) fun offset => ?_
  refine (read_stable length "string").bind fun bytes => ?_
  cases fromUtf8 bytes with
  | some s => exact Stable.pure s
  | none => exact Stable.throw _

/-- What `StringSerde::serialize` writes. -/
theorem stringSerde_serialize_eq {limits : SerdeLimits} {v : String} {b : Bytes}
    (h : (stringSerde limits).serialize v = .ok b) :
    (asBytes v).length ≤ limits.maxStringBytes ∧ b = frame (asBytes v) := by
  obtain ⟨hlen, rfl⟩ := ite_error_eq_ok.1 h
  exact ⟨Nat.le_of_not_lt hlen, rfl⟩

theorem stringSerde_decodes {v : String} {b : Bytes}
    (h : (stringSerde SerdeLimits.default).serialize v = .ok b) (hb : b.length ≤ isizeMax) :
    Decodes (stringSerde SerdeLimits.default) b v := by
  obtain ⟨hlen, rfl⟩ := stringSerde_serialize_eq h
  exact decodes_of_consumes (m := usizeMax) (fun _ => rfl) isizeMax_le_usizeMax
    (readString_consumes v hlen hlen) (readString_stable usizeMax) hb

/-- What `BytesSerde::serialize` writes. -/
theorem bytesSerde_serialize_eq {limits : SerdeLimits} {v b : Bytes}
    (h : (bytesSerde limits).serialize v = .ok b) :
    v.length ≤ limits.maxBytes ∧ b = frame v := by
  obtain ⟨hlen, rfl⟩ := ite_error_eq_ok.1 h
  exact ⟨Nat.le_of_not_lt hlen, rfl⟩

theorem readBytes_consumes {maxBytes : ℕ} (v : Bytes) (hv : v.length ≤ maxBytes)
    (hu : v.length ≤ usizeMax) : Consumes isizeMax
      (readSize maxBytes "bytes length" >>= fun length => read length "bytes") (frame v) v :=
  (readSize_consumes hv hu "bytes length").bind (read_consumes rfl "bytes")

theorem bytesSerde_decodes {v : List UInt8} {b : Bytes}
    (h : (bytesSerde SerdeLimits.default).serialize v = .ok b) (hb : b.length ≤ isizeMax) :
    Decodes (bytesSerde SerdeLimits.default) b v := by
  obtain ⟨hlen, rfl⟩ := bytesSerde_serialize_eq h
  refine decodes_of_consumes (m := usizeMax) (fun _ => rfl) isizeMax_le_usizeMax
    (readBytes_consumes v hlen hlen) ?_ hb
  exact (readSize_stable usizeMax "bytes length").bind fun length => read_stable length "bytes"

/-! ## Arrays -/

/-- A serializing loop appends one piece per element. -/
theorem foldlM_append {ε T : Type} {step : Bytes → T → Except ε Bytes} (Enc : T → Bytes → Prop)
    (hstep : ∀ out x out', step out x = .ok out' → ∃ e, Enc x e ∧ out' = out ++ e)
    {l : List T} {out b : Bytes} (h : l.foldlM step out = .ok b) :
    ∃ es, List.Forall₂ Enc l es ∧ b = out ++ es.flatten := by
  induction l generalizing out with
  | nil =>
    simp only [List.foldlM_nil, pure, Except.pure, Except.ok.injEq] at h
    exact ⟨[], .nil, by simp [h]⟩
  | cons x l ih =>
    rw [List.foldlM_cons] at h
    cases hx : step out x with
    | error e =>
      rw [hx] at h
      cases h
    | ok out' =>
      rw [hx] at h
      obtain ⟨e, he, rfl⟩ := hstep out x out' hx
      obtain ⟨es, hes, rfl⟩ := ih h
      exact ⟨e :: es, .cons he hes, by simp⟩

/-- `if c { return Err(e) }` in front of the rest of a serializer. -/
theorem guarded_eq_ok {ε α : Type} {c : Prop} [Decidable c] {e : ε} {x : Except ε α} {b : α}
    (h : (do if c then throw e
             x : Except ε α) = .ok b) : ¬ c ∧ x = .ok b := by
  by_cases hc : c
  · simp only [if_pos hc] at h
    cases h
  · exact ⟨hc, by simpa [hc] using h⟩

/-! ### What the array serdes write -/

theorem arraySerde_serialize_eq {T : Type} {s : Serde T} {limits : SerdeLimits} {v : List T}
    {b : Bytes} (h : (arraySerde s limits).serialize v = .ok b) :
    v.length ≤ limits.maxContainerElements ∧ ∃ es,
      List.Forall₂ (fun x e => ∃ enc, s.serialize x = .ok enc ∧ e = frame enc) v es ∧
        b = toBe SIZE_BYTES v.length ++ es.flatten := by
  obtain ⟨hlen, hfold⟩ := guarded_eq_ok h
  refine ⟨Nat.le_of_not_lt hlen, foldlM_append _ ?_ hfold⟩
  intro out x out' hx
  cases hx' : s.serialize x with
  | error e =>
    rw [hx'] at hx
    cases hx
  | ok enc =>
    rw [hx'] at hx
    cases hx
    exact ⟨_, ⟨enc, rfl, rfl⟩, by simp [putSize, frame]⟩

theorem stringArraySerde_serialize_eq {limits : SerdeLimits} {v : List String} {b : Bytes}
    (h : (stringArraySerde limits).serialize v = .ok b) :
    v.length ≤ limits.maxContainerElements ∧ ∃ es,
      List.Forall₂ (fun x e => (asBytes x).length ≤ limits.maxStringBytes ∧ e = frame (asBytes x))
        v es ∧ b = toBe SIZE_BYTES v.length ++ es.flatten := by
  obtain ⟨hlen, hfold⟩ := guarded_eq_ok h
  refine ⟨Nat.le_of_not_lt hlen, foldlM_append _ ?_ hfold⟩
  intro out x out' hx
  cases hx' : (stringSerde limits).serialize x with
  | error e =>
    rw [hx'] at hx
    cases hx
  | ok enc =>
    rw [hx'] at hx
    cases hx
    exact ⟨enc, stringSerde_serialize_eq hx', rfl⟩

theorem fixedSizeArraySerde_serialize_eq {T : Type} {s : Serde T} {elementSize : ℕ}
    {limits : SerdeLimits} {v : List T} {b : Bytes}
    (h : (fixedSizeArraySerde s elementSize limits).serialize v = .ok b) :
    v.length ≤ limits.maxContainerElements ∧ ∃ es,
      List.Forall₂ (fun x e => s.serialize x = .ok e ∧ e.length = elementSize) v es ∧
        b = toBe SIZE_BYTES v.length ++ es.flatten := by
  obtain ⟨hlen, hfold⟩ := guarded_eq_ok h
  refine ⟨Nat.le_of_not_lt hlen, foldlM_append _ ?_ hfold⟩
  intro out x out' hx
  cases hx' : s.serialize x with
  | error e =>
    rw [hx'] at hx
    cases hx
  | ok enc =>
    rw [hx'] at hx
    obtain ⟨hsize, hout⟩ := guarded_eq_ok hx
    cases hout
    exact ⟨enc, ⟨rfl, not_ne_iff.1 hsize⟩, rfl⟩

/-! ### What the array serdes read -/

/-- Decoding the pieces one by one gives back equal elements. -/
theorem pieces_consumed {T : Type} [ValueEq T] {m : ℕ} {d : Reader T} {Enc : T → Bytes → Prop}
    (hd : ∀ x e, Enc x e → e.length ≤ m → ∃ x', ValueEq.eqv x x' ∧ Consumes isizeMax d e x')
    {l : List T} {es : List Bytes} (h : List.Forall₂ Enc l es) (hes : es.flatten.length ≤ m) :
    ∃ l' : List T, ValueEq.eqv l l' ∧ Consumes isizeMax (d.times l'.length) es.flatten l' := by
  have hall : ∃ l' : List T, List.Forall₂ ValueEq.eqv l l' ∧
      List.Forall₂ (fun e x' => Consumes isizeMax d e x') es l' := by
    induction h with
    | nil => exact ⟨[], .nil, .nil⟩
    | @cons x e l es hx _ ih =>
      simp only [List.flatten_cons, List.length_append] at hes
      obtain ⟨x', hxx', hcx⟩ := hd x e hx (by omega)
      obtain ⟨l', hll', hcl⟩ := ih (by omega)
      exact ⟨x' :: l', .cons hxx' hll', .cons hcx hcl⟩
  obtain ⟨l', hll', hcl⟩ := hall
  exact ⟨l', hll', Consumes.times hcl⟩

/-- The count in front of the elements, then the elements. -/
theorem counted_consumes {T : Type} [ValueEq T] {m maximum : ℕ} {d : Reader T}
    {Enc : T → Bytes → Prop} (payload : ℕ → Reader (List T))
    (hpay : ∀ {es : List Bytes} {l l' : List T}, List.Forall₂ Enc l es → l'.length = l.length →
      Consumes isizeMax (d.times l'.length) es.flatten l' →
      Consumes isizeMax (payload l'.length) es.flatten l')
    (hd : ∀ x e, Enc x e → e.length ≤ m → ∃ x', ValueEq.eqv x x' ∧ Consumes isizeMax d e x')
    {l : List T} {es : List Bytes} (hl : l.length ≤ maximum) (hu : l.length ≤ usizeMax)
    (h : List.Forall₂ Enc l es) (hb : (toBe SIZE_BYTES l.length ++ es.flatten).length ≤ m) :
    ∃ l' : List T, ValueEq.eqv l l' ∧
      Consumes isizeMax (readSize maximum "array count" >>= payload)
        (toBe SIZE_BYTES l.length ++ es.flatten) l' := by
  have hes : es.flatten.length ≤ m := by
    rw [List.length_append] at hb
    omega
  obtain ⟨l', hll', hcl⟩ := pieces_consumed hd h hes
  have hlen : l'.length = l.length := (List.Forall₂.length_eq hll').symm
  have hcount := readSize_consumes hl hu "array count"
  rw [← hlen] at hcount ⊢
  exact ⟨l', hll', hcount.bind (hpay h hlen hcl)⟩

/-- The decoder of `ArraySerde`. -/
def arrayReader {T : Type} (s : Serde T) (limits : SerdeLimits) : Reader (List T) :=
  readSize limits.maxContainerElements "array count" >>=
    (readInner s "array element length" "array element").times

theorem arrayReader_stable {T : Type} (s : Serde T) (limits : SerdeLimits) :
    Stable (arrayReader s limits) :=
  (readSize_stable limits.maxContainerElements "array count").bind fun count =>
    (readInner_stable s "array element length" "array element").times count

theorem arrayReader_consumes {T : Type} [ValueEq T] {s : Serde T} {limits : SerdeLimits} {m : ℕ}
    (hs : Recovers m s) {v : List T} {b : Bytes} (h : (arraySerde s limits).serialize v = .ok b)
    (hu : v.length ≤ usizeMax) (hb : b.length ≤ m) :
    ∃ v', ValueEq.eqv v v' ∧ Consumes isizeMax (arrayReader s limits) b v' := by
  obtain ⟨hlen, es, hes, rfl⟩ := arraySerde_serialize_eq h
  refine counted_consumes _ (fun _ _ hc => hc) ?_ hlen hu hes hb
  rintro x e ⟨enc, hx, rfl⟩ he
  have henc : enc.length ≤ m := by
    rw [frame, List.length_append] at he
    omega
  obtain ⟨x', hxx', hdec⟩ := hs x enc hx henc
  exact ⟨x', hxx', readInner_consumes "array element length" "array element" hdec⟩

theorem arraySerde_lawful {T : Type} [ValueEq T] {s : Serde T} (hs : Lawful s) :
    Lawful (arraySerde s SerdeLimits.default) := by
  intro v b h hb
  obtain ⟨v', hvv', hc⟩ := arrayReader_consumes hs.recovers h (arraySerde_serialize_eq h).1 hb
  exact ⟨v', hvv', decodes_of_consumes (m := usizeMax) (fun _ => rfl) isizeMax_le_usizeMax hc
    (arrayReader_stable s SerdeLimits.default) hb⟩

/-- The decoder of `StringArraySerde`. -/
def stringArrayReader (limits : SerdeLimits) : Reader (List String) :=
  readSize limits.maxContainerElements "array count" >>= (readString limits.maxStringBytes).times

theorem stringArrayReader_stable (limits : SerdeLimits) : Stable (stringArrayReader limits) :=
  (readSize_stable limits.maxContainerElements "array count").bind fun count =>
    (readString_stable limits.maxStringBytes).times count

theorem stringArrayReader_consumes {limits : SerdeLimits} {m : ℕ} (hm : m ≤ isizeMax)
    {v : List String} {b : Bytes} (h : (stringArraySerde limits).serialize v = .ok b)
    (hu : v.length ≤ usizeMax) (hb : b.length ≤ m) :
    ∃ v', ValueEq.eqv v v' ∧ Consumes isizeMax (stringArrayReader limits) b v' := by
  have hmax := isizeMax_le_usizeMax
  obtain ⟨hlen, es, hes, rfl⟩ := stringArraySerde_serialize_eq h
  refine counted_consumes _ (fun _ _ hc => hc) ?_ hlen hu hes hb
  rintro x e ⟨hx, rfl⟩ he
  rw [frame, List.length_append] at he
  exact ⟨x, rfl, readString_consumes x hx (by omega)⟩

theorem stringArraySerde_lawful : Lawful (stringArraySerde SerdeLimits.default) := by
  intro v b h hb
  obtain ⟨v', hvv', hc⟩ :=
    stringArrayReader_consumes le_rfl h (stringArraySerde_serialize_eq h).1 hb
  exact ⟨v', hvv', decodes_of_consumes (m := usizeMax) (fun _ => rfl) isizeMax_le_usizeMax hc
    (stringArrayReader_stable SerdeLimits.default) hb⟩

/-- The payload of a fixed-width array: the two size checks, then the elements. -/
def fixedPayload {T : Type} (s : Serde T) (elementSize count : ℕ) : Reader (List T) := do
  let offset := (← get).offset
  if count * elementSize > usizeMax then throw ⟨"array size overflow", offset⟩
  else if count * elementSize > (← get).data.length - offset then
    throw ⟨"fixed-size array payload is truncated", offset⟩
  else Decoder.times (do s.deserialize (← read elementSize "array element")) count

theorem fixedPayload_apply {T : Type} (s : Serde T) (elementSize count : ℕ) (c : Cursor) :
    fixedPayload s elementSize count c =
      if count * elementSize > usizeMax then .error ⟨"array size overflow", c.offset⟩
      else if count * elementSize > c.data.length - c.offset then
        .error ⟨"fixed-size array payload is truncated", c.offset⟩
      else Decoder.times (do s.deserialize (← read elementSize "array element")) count c := by
  let elements : Reader (List T) :=
    Decoder.times (do s.deserialize (← read elementSize "array element")) count
  let checked (c' : Cursor) : Reader (List T) :=
    if count * elementSize > c'.data.length - c.offset then
      throw ⟨"fixed-size array payload is truncated", c.offset⟩
    else elements
  change (if count * elementSize > usizeMax then throw ⟨"array size overflow", c.offset⟩
    else get >>= checked : Reader (List T)) c = _
  by_cases h1 : count * elementSize > usizeMax
  · rw [if_pos h1, if_pos h1]
    rfl
  · rw [if_neg h1, if_neg h1]
    change checked c c = _
    by_cases h2 : count * elementSize > c.data.length - c.offset
    · simp only [checked, if_pos h2]
      rfl
    · simp only [checked, if_neg h2]
      rfl

theorem fixedPayload_stable {T : Type} (s : Serde T) (elementSize count : ℕ) :
    Stable (fixedPayload s elementSize count) := by
  intro data ext offset v c hoff h
  simp only [fixedPayload_apply] at h ⊢
  split_ifs at h with h1 h2
  rw [if_neg h1, if_neg (by rw [List.length_append]; omega)]
  exact (decode_slice_stable s (read_stable elementSize "array element")).times count data ext
    offset v c hoff h

theorem fixedPayload_consumes {T : Type} {s : Serde T} {elementSize : ℕ} {b : Bytes} {l : List T}
    (hlen : b.length = l.length * elementSize)
    (h : Consumes isizeMax (Decoder.times (do s.deserialize (← read elementSize "array element"))
      l.length) b l) :
    Consumes isizeMax (fixedPayload s elementSize l.length) b l := by
  intro front rest hmax
  have hle := isizeMax_le_usizeMax
  have hb : b.length ≤ (front ++ b ++ rest).length - front.length := by simp
  rw [fixedPayload_apply, if_neg (by omega), if_neg (by simp only; omega)]
  exact h front rest hmax

theorem length_flatten_of_forall₂ {T : Type} {Enc : T → Bytes → Prop} {n : ℕ}
    (hn : ∀ x e, Enc x e → e.length = n) {l : List T} {es : List Bytes}
    (h : List.Forall₂ Enc l es) : es.flatten.length = l.length * n := by
  induction h with
  | nil => simp
  | cons hx _ ih =>
    rw [List.flatten_cons, List.length_append, hn _ _ hx, ih, List.length_cons, Nat.succ_mul]
    omega

/-- The decoder of `FixedSizeArraySerde`. -/
def fixedSizeArrayReader {T : Type} (s : Serde T) (elementSize : ℕ) (limits : SerdeLimits) :
    Reader (List T) :=
  readSize limits.maxContainerElements "array count" >>= fixedPayload s elementSize

theorem fixedSizeArraySerde_deserialize {T : Type} (s : Serde T) (elementSize : ℕ)
    (limits : SerdeLimits) (data : Bytes) :
    (fixedSizeArraySerde s elementSize limits).deserialize data =
      withReader data limits.maxTotalBytes (fixedSizeArrayReader s elementSize limits) :=
  rfl

theorem fixedSizeArrayReader_consumes {T : Type} [ValueEq T] {s : Serde T} {elementSize : ℕ}
    {limits : SerdeLimits} {m : ℕ} (hs : Recovers m s) {v : List T} {b : Bytes}
    (h : (fixedSizeArraySerde s elementSize limits).serialize v = .ok b)
    (hu : v.length ≤ usizeMax) (hb : b.length ≤ m) :
    ∃ v', ValueEq.eqv v v' ∧
      Consumes isizeMax (fixedSizeArrayReader s elementSize limits) b v' := by
  obtain ⟨hlen, es, hes, rfl⟩ := fixedSizeArraySerde_serialize_eq h
  refine counted_consumes (d := do s.deserialize (← read elementSize "array element"))
    (fixedPayload s elementSize) ?_ ?_ hlen hu hes hb
  · intro es l l' hes hll' hc
    refine fixedPayload_consumes ?_ hc
    rw [length_flatten_of_forall₂ (fun _ _ hx => hx.2) hes, hll']
  · rintro x e ⟨hx, hsize⟩ he
    obtain ⟨x', hxx', hdec⟩ := hs x e hx he
    exact ⟨x', hxx', decode_slice_consumes (read_consumes hsize "array element") hdec⟩

theorem fixedSizeArraySerde_lawful {T : Type} [ValueEq T] {s : Serde T} (hs : Lawful s)
    (elementSize : ℕ) : Lawful (fixedSizeArraySerde s elementSize SerdeLimits.default) := by
  intro v b h hb
  obtain ⟨v', hvv', hc⟩ :=
    fixedSizeArrayReader_consumes hs.recovers h (fixedSizeArraySerde_serialize_eq h).1 hb
  refine ⟨v', hvv', decodes_of_consumes (fixedSizeArraySerde_deserialize s elementSize _)
    isizeMax_le_usizeMax hc ?_ hb⟩
  exact (readSize_stable usizeMax "array count").bind (fixedPayload_stable s elementSize)

/-! ## Maps and key/value pairs -/

theorem putSize_pair (a b : Bytes) :
    putSize (putSize [] a.length ++ a) b.length ++ b = frame a ++ frame b := by
  simp [putSize, frame]

/-- Two framed parts decoded by two inner serdes, then combined. -/
def pairReader {A B C : Type} (sa : Serde A) (sb : Serde B) (w₁ w₂ w₃ w₄ : String)
    (combine : A → B → Reader C) : Reader C :=
  readInner sa w₁ w₂ >>= fun a => readInner sb w₃ w₄ >>= fun b => combine a b

theorem pairReader_stable {A B C : Type} (sa : Serde A) (sb : Serde B) (w₁ w₂ w₃ w₄ : String)
    {combine : A → B → Reader C} (hst : ∀ a b, Stable (combine a b)) :
    Stable (pairReader sa sb w₁ w₂ w₃ w₄ combine) :=
  (readInner_stable sa w₁ w₂).bind fun a => (readInner_stable sb w₃ w₄).bind (hst a)

theorem pairReader_consumes {A B C : Type} {sa : Serde A} {sb : Serde B} (w₁ w₂ w₃ w₄ : String)
    {combine : A → B → Reader C} {a : A} {b : B} {c : C}
    (hc : Consumes isizeMax (combine a b) [] c) {ab bb : Bytes} (ha : sa.deserialize ab = .ok a)
    (hb : sb.deserialize bb = .ok b) :
    Consumes isizeMax (pairReader sa sb w₁ w₂ w₃ w₄ combine) (frame ab ++ frame bb) c := by
  refine (readInner_consumes w₁ w₂ ha).bind ?_
  have hboth := (readInner_consumes w₃ w₄ hb).bind hc
  rwa [List.append_nil] at hboth

section Maps

variable {K V : Type} [DecidableEq K]

/-- What `collect` binds: the only binding of a key that occurs once. -/
theorem lookup_collect_aux (l : List (K × V)) (hl : (l.map Prod.fst).Nodup) (m : IterMap K V)
    (k : K) :
    (l.foldl (fun m e => m.insert e.1 e.2) m).lookup k = (l.lookup k).or (m.lookup k) := by
  induction l generalizing m with
  | nil => simp
  | cons e l ih =>
    obtain ⟨a, v⟩ := e
    simp only [List.map_cons, List.nodup_cons] at hl
    rw [List.foldl_cons, ih hl.2, List.lookup_cons]
    by_cases hk : k = a
    · subst hk
      have hnone : l.lookup k = none := by
        rw [List.lookup_eq_none_iff]
        intro p hp
        exact bne_iff_ne.2 fun hc => hl.1 (List.mem_map.2 ⟨p, hp, hc.symm⟩)
      simp [hnone, AList.lookup_insert]
    · rw [AList.lookup_insert_ne hk, beq_eq_false_iff_ne.2 hk]

theorem lookup_collect (l : List (K × V)) (hl : (l.map Prod.fst).Nodup) (k : K) :
    (collect l).lookup k = l.lookup k := by
  rw [collect, lookup_collect_aux l hl]
  simp

/-- The bindings of a map, as the pairs the decoder zips together again. -/
theorem lookup_zip_entries (l : List (Σ _ : K, V)) (k : K) :
    ((l.map Sigma.fst).zip (l.map Sigma.snd)).lookup k = l.dlookup k := by
  induction l with
  | nil => rfl
  | cons e l ih =>
    obtain ⟨a, v⟩ := e
    rw [List.map_cons, List.map_cons, List.zip_cons_cons, List.lookup_cons]
    by_cases hk : k = a
    · subst hk; simp
    · rw [List.dlookup_cons_ne _ _ hk, ← ih, beq_eq_false_iff_ne.2 hk]

/-- Equal values under the same keys. -/
theorem lookup_zip_rel [ValueEq V] (ks : List K) {vs vs' : List V}
    (h : List.Forall₂ ValueEq.eqv vs vs') (k : K) :
    Option.Rel ValueEq.eqv ((ks.zip vs).lookup k) ((ks.zip vs').lookup k) := by
  induction h generalizing ks with
  | nil => simp only [List.zip_nil_right, List.lookup_nil]; exact .none
  | cons hv _ ih =>
    cases ks with
    | nil => exact .none
    | cons a ks =>
      rw [List.zip_cons_cons, List.zip_cons_cons, List.lookup_cons, List.lookup_cons]
      by_cases hk : k = a
      · rw [beq_iff_eq.2 hk]
        exact .some hv
      · rw [beq_eq_false_iff_ne.2 hk]
        exact ih ks

/-- The decoder of `MapSerde`. -/
def mapReader (ks : Serde (List K)) (vs : Serde (List V)) : Reader (IterMap K V) :=
  pairReader ks vs "map keys length" "map keys" "map values length" "map values"
    fun keys values => do
      if keys.length ≠ values.length then
        throw ⟨"map key and value counts do not match", (← get).offset⟩
      else return collect (keys.zip values)

theorem mapSerde_deserialize (ks : Serde (List K)) (vs : Serde (List V)) (data : Bytes) :
    (mapSerde ks vs).deserialize data = withReader data usizeMax (mapReader ks vs) := by
  simp only [mapReader, pairReader, readInner_bind]
  rfl

theorem mapReader_stable (ks : Serde (List K)) (vs : Serde (List V)) :
    Stable (mapReader ks vs) := by
  refine pairReader_stable ks vs _ _ _ _ fun keys values => ?_
  by_cases hne : keys.length ≠ values.length
  · simp only [if_pos hne]
    exact Stable.getOffset fun o => Stable.throw _
  · simp only [if_neg hne]
    exact Stable.pure _

/-- What `MapSerde::serialize` writes. -/
theorem mapSerde_serialize_eq {ks : Serde (List K)} {vs : Serde (List V)} {m : IterMap K V}
    {b : Bytes} (h : (mapSerde ks vs).serialize m = .ok b) :
    ∃ kb vb, ks.serialize (m.entries.map Sigma.fst) = .ok kb ∧
      vs.serialize (m.entries.map Sigma.snd) = .ok vb ∧ b = frame kb ++ frame vb := by
  cases hk : ks.serialize (m.entries.map Sigma.fst) with
  | error e =>
    simp only [mapSerde, hk] at h
    cases h
  | ok kb =>
    cases hv : vs.serialize (m.entries.map Sigma.snd) with
    | error e =>
      simp only [mapSerde, hk, hv] at h
      cases h
    | ok vb =>
      simp only [mapSerde, hk, hv] at h
      cases h
      exact ⟨kb, vb, rfl, rfl, putSize_pair kb vb⟩

theorem mapReader_consumes [ValueEq K] [KeyEq K] [ValueEq V] {n : ℕ} {ks : Serde (List K)}
    {vs : Serde (List V)} (hks : Recovers n ks) (hvs : Recovers n vs) {m : IterMap K V} {b : Bytes}
    (h : (mapSerde ks vs).serialize m = .ok b) (hb : b.length ≤ n) :
    ∃ m', ValueEq.eqv m m' ∧ Consumes isizeMax (mapReader ks vs) b m' := by
  obtain ⟨kb, vb, hk, hv, rfl⟩ := mapSerde_serialize_eq h
  simp only [List.length_append, frame] at hb
  obtain ⟨keys, hkeys, hkdec⟩ := hks _ kb hk (by omega)
  obtain ⟨values, hvalues, hvdec⟩ := hvs _ vb hv (by omega)
  obtain rfl := KeyEq.eq_of_eqv hkeys
  have hcount : (m.entries.map Sigma.fst).length = values.length := by
    rw [← List.Forall₂.length_eq hvalues, List.length_map, List.length_map]
  refine ⟨collect ((m.entries.map Sigma.fst).zip values), fun k => ?_, ?_⟩
  · have hnodup : (((m.entries.map Sigma.fst).zip values).map Prod.fst).Nodup := by
      rw [List.map_fst_zip hcount.le]
      exact m.nodupKeys
    rw [lookup_collect _ hnodup, AList.lookup, ← lookup_zip_entries]
    exact lookup_zip_rel _ hvalues k
  · refine pairReader_consumes _ _ _ _ ?_ hkdec hvdec
    simp only [ne_eq, hcount, not_true_eq_false, if_false]
    exact Consumes.pure isizeMax _

theorem mapSerde_lawful [ValueEq K] [KeyEq K] [ValueEq V] {ks : Serde (List K)}
    {vs : Serde (List V)} (hks : Lawful ks) (hvs : Lawful vs) : Lawful (mapSerde ks vs) := by
  intro m b h hb
  obtain ⟨m', hmm', hc⟩ := mapReader_consumes hks.recovers hvs.recovers h hb
  exact ⟨m', hmm', decodes_of_consumes (mapSerde_deserialize ks vs) isizeMax_le_usizeMax hc
    (mapReader_stable ks vs) hb⟩

end Maps

section KeyValues

variable {K V : Type} {ks : Serde K} {vs : Serde V}

/-- What the joined form of a key/value pair looks like. -/
theorem streamKeyValueSerde_serialize_eq {v : KeyValue K V} {b : Bytes}
    (h : (streamKeyValueSerde ks vs).serialize v = .ok b) :
    ∃ kb vb, ks.serialize v.key = .ok kb ∧ vs.serialize v.value = .ok vb ∧
      b = frame kb ++ frame vb := by
  cases hk : ks.serialize v.key with
  | error e =>
    simp only [streamKeyValueSerde, hk] at h
    cases h
  | ok kb =>
    cases hv : vs.serialize v.value with
    | error e =>
      simp only [streamKeyValueSerde, hk, hv] at h
      cases h
    | ok vb =>
      simp only [streamKeyValueSerde, hk, hv] at h
      cases h
      exact ⟨kb, vb, rfl, rfl, putSize_pair kb vb⟩

/-- The decoder of `StreamKeyValueSerde`. -/
def keyValueReader (ks : Serde K) (vs : Serde V) : Reader (KeyValue K V) :=
  pairReader ks vs "key length" "key" "value length" "value" fun key value => pure ⟨key, value⟩

theorem streamKeyValueSerde_deserialize (ks : Serde K) (vs : Serde V) (data : Bytes) :
    (streamKeyValueSerde ks vs).deserialize data =
      withReader data usizeMax (keyValueReader ks vs) := by
  simp only [keyValueReader, pairReader, readInner_bind]
  rfl

/-- Encoding a pair: the joined form and the split form decode to one and the same value. -/
theorem streamKeyValueSerde_decodes [ValueEq K] [ValueEq V] (hks : Lawful ks) (hvs : Lawful vs)
    {v : KeyValue K V} {b : Bytes} (h : (streamKeyValueSerde ks vs).serialize v = .ok b)
    (hb : b.length ≤ isizeMax) :
    ∃ v', ValueEq.eqv v v' ∧ Decodes (streamKeyValueSerde ks vs).toSerde b v' ∧
      ∃ kb vb, (streamKeyValueSerde ks vs).serializeKey v = .ok (some kb) ∧
        (streamKeyValueSerde ks vs).serializeValue v = .ok vb ∧
        (streamKeyValueSerde ks vs).deserializeKeyValue (some kb) vb = .ok v' := by
  obtain ⟨kb, vb, hk, hv, rfl⟩ := streamKeyValueSerde_serialize_eq h
  have hlen := hb
  simp only [List.length_append, frame] at hlen
  obtain ⟨key, hkey, hkdec⟩ := hks.recovers _ kb hk (by omega)
  obtain ⟨value, hvalue, hvdec⟩ := hvs.recovers _ vb hv (by omega)
  refine ⟨⟨key, value⟩, ⟨hkey, hvalue⟩, ?_, kb, vb, ?_, hv, ?_⟩
  · refine decodes_of_consumes (streamKeyValueSerde_deserialize ks vs) isizeMax_le_usizeMax
      (pairReader_consumes _ _ _ _ (Consumes.pure isizeMax _) hkdec hvdec) ?_ hb
    exact pairReader_stable ks vs _ _ _ _ fun k v => Stable.pure _
  · simp only [streamKeyValueSerde, hk]
    rfl
  · simp only [streamKeyValueSerde, hkdec, hvdec]
    rfl

end KeyValues

/-! ## All nestings -/

/-- The serdes built by nesting, with default limits. -/
inductive Built : {T : Type} → [ValueEq T] → Serde T → Prop
  | bool : Built boolSerde
  | int8 : Built int8Serde
  | uint8 : Built uint8Serde
  | int16 : Built int16Serde
  | uint16 : Built uint16Serde
  | int32 : Built int32Serde
  | uint32 : Built uint32Serde
  | int64 : Built int64Serde
  | uint64 : Built uint64Serde
  | rune : Built runeSerde
  | float32 : Built float32Serde
  | float64 : Built float64Serde
  | string : Built (stringSerde SerdeLimits.default)
  | bytes : Built (bytesSerde SerdeLimits.default)
  | fixedSizeArray {T : Type} [ValueEq T] {s : Serde T} (elementSize : ℕ) : Built s →
      0 < elementSize → Built (fixedSizeArraySerde s elementSize SerdeLimits.default)
  | stringArray : Built (stringArraySerde SerdeLimits.default)
  | array {T : Type} [ValueEq T] {s : Serde T} : Built s →
      Built (arraySerde s SerdeLimits.default)
  | map {K V : Type} [DecidableEq K] [ValueEq K] [KeyEq K] [ValueEq V] {ks : Serde (List K)}
      {vs : Serde (List V)} : Built ks → Built vs → Built (mapSerde ks vs)
  | keyValue {K V : Type} [ValueEq K] [ValueEq V] {ks : Serde K} {vs : Serde V} :
      Built ks → Built vs → Built (streamKeyValueSerde ks vs).toSerde

theorem lawful_of_decodes {T : Type} [ValueEq T] {s : Serde T} (hrefl : ∀ v : T, ValueEq.eqv v v)
    (h : ∀ {v b}, s.serialize v = .ok b → b.length ≤ isizeMax → Decodes s b v) : Lawful s :=
  fun v _ hv hb => ⟨v, hrefl v, h hv hb⟩

/-- **Every nesting is lawful.** The induction follows the nesting; each case uses only that the
inner serdes are lawful. -/
theorem Built.lawful {T : Type} [ValueEq T] {s : Serde T} (h : Built s) : Lawful s := by
  induction h with
  | bool => exact lawful_of_decodes (fun _ => rfl) boolSerde_decodes
  | int8 =>
    exact lawful_of_decodes (fun _ => rfl) (signedSerde_decodes (fun u => u.toNat_lt)
      (fun _ => UInt8.ofNat_toNat) fun v => by simp)
  | uint8 =>
    exact lawful_of_decodes (fun _ => rfl)
      (unsignedSerde_decodes (fun u => u.toNat_lt) fun _ => UInt8.ofNat_toNat)
  | int16 =>
    exact lawful_of_decodes (fun _ => rfl) (signedSerde_decodes (fun u => u.toNat_lt)
      (fun _ => UInt16.ofNat_toNat) fun v => by simp)
  | uint16 =>
    exact lawful_of_decodes (fun _ => rfl)
      (unsignedSerde_decodes (fun u => u.toNat_lt) fun _ => UInt16.ofNat_toNat)
  | int32 =>
    exact lawful_of_decodes (fun _ => rfl) (signedSerde_decodes (fun u => u.toNat_lt)
      (fun _ => UInt32.ofNat_toNat) fun v => by simp)
  | uint32 => exact lawful_of_decodes (fun _ => rfl) uint32Serde_decodes
  | int64 =>
    exact lawful_of_decodes (fun _ => rfl) (signedSerde_decodes (fun u => u.toNat_lt)
      (fun _ => UInt64.ofNat_toNat) fun v => by simp)
  | uint64 => exact lawful_of_decodes (fun _ => rfl) uint64Serde_decodes
  | rune => exact lawful_of_decodes (fun _ => rfl) runeSerde_decodes
  | float32 => exact lawful_of_decodes (fun _ => rfl) float32Serde_decodes
  | float64 => exact lawful_of_decodes (fun _ => rfl) float64Serde_decodes
  | string => exact lawful_of_decodes (fun _ => rfl) stringSerde_decodes
  | bytes => exact lawful_of_decodes (eqv_refl_of_eq fun _ => rfl) bytesSerde_decodes
  | fixedSizeArray elementSize _ _ ih => exact fixedSizeArraySerde_lawful ih elementSize
  | stringArray => exact stringArraySerde_lawful
  | array _ ih => exact arraySerde_lawful ih
  | map _ _ ihk ihv => exact mapSerde_lawful ihk ihv
  | keyValue _ _ ihk ihv =>
    intro v b h hb
    obtain ⟨v', heq, hdec, -⟩ := streamKeyValueSerde_decodes ihk ihv h hb
    exact ⟨v', heq, hdec⟩

/-- **Round trip and self-delimitation.** For every nesting and every value it encodes: the
encoding decodes to an equal value whatever bytes follow it, and no proper prefix of the encoding
decodes. For a key/value serde the split form decodes to the same value as the joined one. The
bounds say that the byte strings fit a `Vec`. -/
theorem serde_round_trip :
    (∀ {T : Type} [ValueEq T] {s : Serde T}, Built s → ∀ (v : T) (b : Bytes),
      s.serialize v = .ok b → b.length ≤ isizeMax →
      (∃ v', ValueEq.eqv v v' ∧ ∀ rest : Bytes, (b ++ rest).length ≤ isizeMax →
        s.deserialize (b ++ rest) = .ok v') ∧
      ∀ p : Bytes, p <+: b → p ≠ b → ∃ e, s.deserialize p = .error e) ∧
    ∀ {K V : Type} [ValueEq K] [ValueEq V] {ks : Serde K} {vs : Serde V}, Built ks → Built vs →
      ∀ (v : KeyValue K V) (b : Bytes), (streamKeyValueSerde ks vs).serialize v = .ok b →
      b.length ≤ isizeMax →
      ∃ kb vb v', (streamKeyValueSerde ks vs).serializeKey v = .ok (some kb) ∧
        (streamKeyValueSerde ks vs).serializeValue v = .ok vb ∧
        (streamKeyValueSerde ks vs).deserializeKeyValue (some kb) vb = .ok v' ∧
        (streamKeyValueSerde ks vs).deserialize b = .ok v' ∧ ValueEq.eqv v v' := by
  refine ⟨fun hs v b h hb => ?_, fun hks hvs v b h hb => ?_⟩
  · obtain ⟨v', heq, hdec⟩ := hs.lawful v b h hb
    exact ⟨⟨v', heq, hdec.append⟩, hdec.properPrefix⟩
  · obtain ⟨v', heq, hdec, kb, vb, hkb, hvb, hsplit⟩ :=
      streamKeyValueSerde_decodes hks.lawful hvs.lawful h hb
    exact ⟨kb, vb, v', hkb, hvb, hsplit, hdec.exact hb, heq⟩

/-- A two-entry map from bytes to booleans, in one of its iteration orders. -/
def sampleMap : IterMap UInt8 Bool := (∅ : IterMap UInt8 Bool).insert 3 true |>.insert 9 false

theorem serde_round_trip_sampleMap :
    (∃ b, (mapSerde (fixedSizeArraySerde uint8Serde 1 SerdeLimits.default)
        (fixedSizeArraySerde boolSerde 1 SerdeLimits.default)).serialize sampleMap = .ok b ∧
      ∃ m, ValueEq.eqv sampleMap m ∧
        (mapSerde (fixedSizeArraySerde uint8Serde 1 SerdeLimits.default)
          (fixedSizeArraySerde boolSerde 1 SerdeLimits.default)).deserialize (b ++ [7]) = .ok m) ∧
    ∃ v', (streamKeyValueSerde uint8Serde boolSerde).deserializeKeyValue (some [5]) [1] = .ok v' ∧
      ValueEq.eqv ⟨5, true⟩ v' := by
  constructor
  · refine ⟨_, rfl, ?_⟩
    obtain ⟨⟨m, hm, hdec⟩, -⟩ := serde_round_trip.1
      (.map (.fixedSizeArray 1 .uint8 (by decide)) (.fixedSizeArray 1 .bool (by decide))) sampleMap
      _ rfl (by decide)
    exact ⟨m, hm, hdec [7] (by decide)⟩
  · obtain ⟨kb, vb, v', hkb, hvb, hsplit, -, heq⟩ :=
      serde_round_trip.2 .uint8 .bool ⟨5, true⟩ _ rfl (by decide)
    cases hkb
    cases hvb
    exact ⟨v', hsplit, heq⟩

end ServiceLib.Serde
