import ServiceLib.Serde.Nesting

/-!
# Limits

Both sides of `SerdeLimits` are enforced by different checks: the encoders look at the value (the
length of a string, the number of elements), the decoders at the value and, first of all, at the
whole input (`max_total_bytes`). No encoder looks at `max_total_bytes`.

**Theorem (`deserialize_serialize_iff`).** A serde that takes limits reads back what it wrote if
and only if the encoding takes at most `max_total_bytes`. The other three limits never reject an
encoding that was produced under the same limits.

The idea: `Recovers m` is closed under nesting as long as no serde inside rejects inputs of at
most `m` bytes (`Nesting.recovers`), since every encoding inside an encoding is shorter.
-/

namespace ServiceLib.Serde

open Decoder

namespace Nesting

/-! ## Which limits a nesting uses -/

/-- Every serde inside was given the limits `L`. The elements of a `FixedSizeArraySerde` are made
by `S::default()`; they may also have the default limits. -/
def Uses {T : Type} [ValueEq T] : Nesting T → SerdeLimits → Prop
  | .prim _, _ => True
  | .string limits, L => limits = L
  | .bytes limits, L => limits = L
  | .fixedSizeArray element _ limits, L =>
    limits = L ∧ (element.Uses L ∨ element.Uses SerdeLimits.default)
  | .stringArray limits, L => limits = L
  | .array element limits, L => limits = L ∧ element.Uses L
  | .map keys values, L => keys.Uses L ∧ values.Uses L
  | .keyValue key value, L => key.Uses L ∧ value.Uses L

/-- The serdes that are built with limits of their own. -/
def TakesLimits {T : Type} [ValueEq T] : Nesting T → Prop
  | .string _ | .bytes _ | .fixedSizeArray .. | .stringArray _ | .array .. => True
  | .prim _ | .map .. | .keyValue .. => False

/-- No serde inside rejects an input of at most `m` bytes for its length. -/
def Within {T : Type} [ValueEq T] (m : ℕ) : Nesting T → Prop
  | .prim _ => True
  | .string limits => m ≤ limits.maxTotalBytes
  | .bytes limits => m ≤ limits.maxTotalBytes
  | .fixedSizeArray element _ limits => m ≤ limits.maxTotalBytes ∧ element.Within m
  | .stringArray limits => m ≤ limits.maxTotalBytes
  | .array element limits => m ≤ limits.maxTotalBytes ∧ element.Within m
  | .map keys values => keys.Within m ∧ values.Within m
  | .keyValue key value => key.Within m ∧ value.Within m

theorem Uses.within {T : Type} [ValueEq T] {c : Nesting T} {L : SerdeLimits} {m : ℕ}
    (h : c.Uses L) (hm : m ≤ isizeMax) (hL : m ≤ L.maxTotalBytes) : c.Within m := by
  have hdefault : m ≤ SerdeLimits.default.maxTotalBytes := hm.trans isizeMax_le_usizeMax
  induction c generalizing L with
  | prim p => trivial
  | string limits => exact hL.trans_eq (congrArg _ h.symm)
  | bytes limits => exact hL.trans_eq (congrArg _ h.symm)
  | fixedSizeArray element elementSize limits ih =>
    obtain ⟨rfl, he⟩ := h
    refine ⟨hL, ?_⟩
    cases he with
    | inl he => exact ih he hL
    | inr he => exact ih he hdefault
  | stringArray limits => exact hL.trans_eq (congrArg _ h.symm)
  | array element limits ih =>
    obtain ⟨rfl, he⟩ := h
    exact ⟨hL, ih he hL⟩
  | map keys values ihk ihv => exact ⟨ihk h.1 hL, ihv h.2 hL⟩
  | keyValue key value ihk ihv => exact ⟨ihk h.1 hL, ihv h.2 hL⟩

/-! ## Reading back -/

/-- A serde reads back what its decoder consumes whole. -/
theorem deserialize_of_consumes {T : Type} {s : Serde T} {total : ℕ} {body : Reader T}
    (hs : ∀ data, s.deserialize data = withReader data total body) {b : Bytes} {v : T}
    (hc : Consumes isizeMax body b v) (htotal : b.length ≤ total) (hb : b.length ≤ isizeMax) :
    s.deserialize b = .ok v := by
  have hrun := hc [] [] (by simpa using hb)
  simp only [List.nil_append, List.append_nil] at hrun
  rw [hs]
  exact withReader_eq_ok htotal hrun

/-- The number of elements is bounded by the bytes they take. -/
theorem length_le_flatten {T : Type} {Enc : T → Bytes → Prop}
    (hpos : ∀ x e, Enc x e → 0 < e.length) {l : List T} {es : List Bytes}
    (h : List.Forall₂ Enc l es) : l.length ≤ es.flatten.length := by
  induction h with
  | nil => exact le_rfl
  | cons hx _ ih =>
    have := hpos _ _ hx
    rw [List.flatten_cons, List.length_append, List.length_cons]
    omega

theorem prim_recovers {T : Type} [ValueEq T] (p : Prim T) : Recovers isizeMax p.serde := by
  cases p with
  | bool => exact Built.bool.lawful.recovers
  | int8 => exact Built.int8.lawful.recovers
  | uint8 => exact Built.uint8.lawful.recovers
  | int16 => exact Built.int16.lawful.recovers
  | uint16 => exact Built.uint16.lawful.recovers
  | int32 => exact Built.int32.lawful.recovers
  | uint32 => exact Built.uint32.lawful.recovers
  | int64 => exact Built.int64.lawful.recovers
  | uint64 => exact Built.uint64.lawful.recovers
  | rune => exact Built.rune.lawful.recovers
  | float32 => exact Built.float32.lawful.recovers
  | float64 => exact Built.float64.lawful.recovers

/-- The count of an array of nestings fits its frame: every element takes at least one byte. -/
theorem elements_le {T : Type} [ValueEq T] (element : Nesting T) {Enc : T → Bytes → Prop}
    (hEnc : ∀ x e, Enc x e → ∃ enc, element.serde.serialize x = .ok enc ∧ enc.length ≤ e.length)
    {m : ℕ} (hm : m ≤ isizeMax) {l : List T} {es : List Bytes} (h : List.Forall₂ Enc l es)
    (hb : (toBe SIZE_BYTES l.length ++ es.flatten).length ≤ m) : l.length ≤ usizeMax := by
  have hmax := isizeMax_le_usizeMax
  have hle : l.length ≤ es.flatten.length := by
    refine length_le_flatten (fun x e hx => ?_) h
    obtain ⟨enc, henc, hlen⟩ := hEnc x e hx
    rw [element.length_serialize henc] at hlen
    exact (element.size_pos x).trans_le hlen
  rw [List.length_append] at hb
  omega

/-- **Nestings read back what they write**, as long as no serde inside rejects inputs of at most
`m` bytes. The induction follows the nesting: an inner encoding is part of the outer one, so the
same `m` bounds it. -/
theorem recovers {T : Type} [ValueEq T] {m : ℕ} (hm : m ≤ isizeMax) (c : Nesting T)
    (hc : c.Within m) : Recovers m c.serde := by
  have hmax := isizeMax_le_usizeMax
  induction c with
  | prim p =>
    intro v b h hb
    exact prim_recovers p v b h (hb.trans hm)
  | string limits =>
    intro v b h hb
    obtain ⟨hlen, rfl⟩ := stringSerde_serialize_eq h
    have hv : (asBytes v).length ≤ usizeMax := by
      rw [length_frame] at hb
      omega
    exact ⟨v, rfl, deserialize_of_consumes (fun _ => rfl) (readString_consumes v hlen hv)
      (hb.trans hc) (hb.trans hm)⟩
  | bytes limits =>
    intro v b h hb
    obtain ⟨hlen, rfl⟩ := bytesSerde_serialize_eq h
    have hv : v.length ≤ usizeMax := by
      rw [length_frame] at hb
      omega
    exact ⟨v, eqv_refl_of_eq (fun _ => rfl) v, deserialize_of_consumes (fun _ => rfl)
      (readBytes_consumes v hlen hv) (hb.trans hc) (hb.trans hm)⟩
  | fixedSizeArray element elementSize limits ih =>
    intro v b h hb
    have hu : v.length ≤ usizeMax := by
      obtain ⟨-, es, hes, rfl⟩ := fixedSizeArraySerde_serialize_eq h
      exact elements_le element (fun x e hx => ⟨e, hx.1, le_rfl⟩) hm hes hb
    obtain ⟨v', hvv', hcons⟩ := fixedSizeArrayReader_consumes (ih hc.2) h hu hb
    exact ⟨v', hvv', deserialize_of_consumes (fixedSizeArraySerde_deserialize _ _ _) hcons
      (hb.trans hc.1) (hb.trans hm)⟩
  | stringArray limits =>
    intro v b h hb
    have hu : v.length ≤ usizeMax := by
      obtain ⟨-, es, hes, rfl⟩ := stringArraySerde_serialize_eq h
      have hle := length_le_flatten (fun x e hx => by
        rw [hx.2, length_frame]
        exact Nat.add_pos_left (by decide) _) hes
      rw [List.length_append] at hb
      omega
    obtain ⟨v', hvv', hcons⟩ := stringArrayReader_consumes hm h hu hb
    exact ⟨v', hvv', deserialize_of_consumes (fun _ => rfl) hcons (hb.trans hc) (hb.trans hm)⟩
  | array element limits ih =>
    intro v b h hb
    have hu : v.length ≤ usizeMax := by
      obtain ⟨-, es, hes, rfl⟩ := arraySerde_serialize_eq h
      refine elements_le element (fun x e hx => ?_) hm hes hb
      obtain ⟨enc, henc, rfl⟩ := hx
      exact ⟨enc, henc, by rw [length_frame]; omega⟩
    obtain ⟨v', hvv', hcons⟩ := arrayReader_consumes (ih hc.2) h hu hb
    exact ⟨v', hvv', deserialize_of_consumes (fun _ => rfl) hcons (hb.trans hc.1) (hb.trans hm)⟩
  | map keys values ihk ihv =>
    intro v b h hb
    obtain ⟨v', hvv', hcons⟩ := mapReader_consumes (ihk hc.1) (ihv hc.2) h hb
    exact ⟨v', hvv', deserialize_of_consumes (mapSerde_deserialize _ _) hcons
      ((hb.trans hm).trans hmax) (hb.trans hm)⟩
  | keyValue key value ihk ihv =>
    intro v b h hb
    obtain ⟨kb, vb, hk, hv, rfl⟩ := streamKeyValueSerde_serialize_eq h
    have hlen := hb
    rw [List.length_append, length_frame, length_frame] at hlen
    obtain ⟨k', hkk', hkdec⟩ := ihk hc.1 _ kb hk (by omega)
    obtain ⟨v', hvv', hvdec⟩ := ihv hc.2 _ vb hv (by omega)
    exact ⟨⟨k', v'⟩, ⟨hkk', hvv'⟩, deserialize_of_consumes (streamKeyValueSerde_deserialize _ _)
      (pairReader_consumes _ _ _ _ (Consumes.pure isizeMax _) hkdec hvdec)
      ((hb.trans hm).trans hmax) (hb.trans hm)⟩

/-! ## Equality -/

/-- No hash map inside the values. -/
def MapFree {T : Type} [ValueEq T] : Nesting T → Prop
  | .map .. => False
  | .fixedSizeArray element _ _ => element.MapFree
  | .array element _ => element.MapFree
  | .keyValue key value => key.MapFree ∧ value.MapFree
  | .prim _ | .string _ | .bytes _ | .stringArray _ => True

theorem forall₂_eqv_iff {T : Type} [ValueEq T] (h : ∀ a b : T, ValueEq.eqv a b ↔ a = b)
    (l l' : List T) : ValueEq.eqv l l' ↔ l = l' := by
  have hrel : (ValueEq.eqv : T → T → Prop) = Eq := by
    funext a b
    exact propext (h a b)
  change List.Forall₂ ValueEq.eqv l l' ↔ l = l'
  rw [hrel, List.forall₂_eq_eq_eq]

/-- Without hash maps, equality up to iteration order is equality. -/
theorem MapFree.eqv_iff {T : Type} [ValueEq T] {c : Nesting T} (h : c.MapFree) (a b : T) :
    ValueEq.eqv a b ↔ a = b := by
  induction c with
  | prim p => cases p <;> exact Iff.rfl
  | string limits => exact Iff.rfl
  | bytes limits => exact forall₂_eqv_iff (fun _ _ => Iff.rfl) a b
  | fixedSizeArray element elementSize limits ih => exact forall₂_eqv_iff (ih h) a b
  | stringArray limits => exact forall₂_eqv_iff (fun _ _ => Iff.rfl) a b
  | array element limits ih => exact forall₂_eqv_iff (ih h) a b
  | map keys values ihk ihv => exact h.elim
  | keyValue key value ihk ihv =>
    obtain ⟨ak, av⟩ := a
    obtain ⟨bk, bv⟩ := b
    rw [KeyValue.mk.injEq, ← ihk h.1, ← ihv h.2]
    exact Iff.rfl

/-! ## The check the encoders do not make -/

theorem length_le_of_withReader {α : Type} {data : Bytes} {m : ℕ} {body : Reader α} {v : α}
    (h : withReader data m body = .ok v) : data.length ≤ m := by
  by_contra hlt
  rw [withReader, if_pos (by omega)] at h
  cases h

/-- A decoder with limits accepts no more than `max_total_bytes`. -/
theorem TakesLimits.length_le {T : Type} [ValueEq T] {c : Nesting T} {L : SerdeLimits}
    (htakes : c.TakesLimits) (huses : c.Uses L) {b : Bytes} {v : T}
    (h : c.serde.deserialize b = .ok v) : b.length ≤ L.maxTotalBytes := by
  cases c with
  | prim p => exact htakes.elim
  | string limits =>
    cases huses
    exact length_le_of_withReader h
  | bytes limits =>
    cases huses
    exact length_le_of_withReader h
  | fixedSizeArray element elementSize limits =>
    obtain ⟨rfl, -⟩ := huses
    exact length_le_of_withReader h
  | stringArray limits =>
    cases huses
    exact length_le_of_withReader h
  | array element limits =>
    obtain ⟨rfl, -⟩ := huses
    exact length_le_of_withReader h
  | map keys values => exact htakes.elim
  | keyValue key value => exact htakes.elim

/-- **Limits accept what they emit, up to `max_total_bytes`.** What a serde with limits wrote it
reads back if and only if the encoding takes at most `max_total_bytes`; for values without hash
maps inside, it reads back that very value. -/
theorem deserialize_serialize_iff {T : Type} [ValueEq T] (c : Nesting T) (L : SerdeLimits)
    (htakes : c.TakesLimits) (huses : c.Uses L) (v : T) (b : Bytes)
    (h : c.serde.serialize v = .ok b) (hb : b.length ≤ isizeMax) :
    ((∃ v', ValueEq.eqv v v' ∧ c.serde.deserialize b = .ok v') ↔ c.size v ≤ L.maxTotalBytes) ∧
      (c.MapFree → (c.serde.deserialize b = .ok v ↔ c.size v ≤ L.maxTotalBytes)) := by
  rw [← c.length_serialize h]
  have hreads : b.length ≤ L.maxTotalBytes →
      ∃ v', ValueEq.eqv v v' ∧ c.serde.deserialize b = .ok v' := by
    intro htotal
    exact c.recovers hb (huses.within hb htotal) v b h le_rfl
  refine ⟨⟨?_, hreads⟩, fun hfree => ⟨?_, fun htotal => ?_⟩⟩
  · rintro ⟨v', -, hdec⟩
    exact htakes.length_le huses hdec
  · intro hdec
    exact htakes.length_le huses hdec
  · obtain ⟨v', heq, hdec⟩ := hreads htotal
    rw [hfree.eqv_iff] at heq
    rwa [heq]

/-- Eleven bytes for a three-byte string: the frame counts too. -/
theorem deserialize_serialize_iff_abc :
    (string ⟨3, 3, 3, 11⟩).serde.deserialize [0, 0, 0, 0, 0, 0, 0, 3, 97, 98, 99] = .ok "abc" :=
  ((deserialize_serialize_iff (string ⟨3, 3, 3, 11⟩) ⟨3, 3, 3, 11⟩ trivial rfl "abc"
    [0, 0, 0, 0, 0, 0, 0, 3, 97, 98, 99] (by decide +kernel) (by decide)).2 trivial).2
      (by decide +kernel)

/-- With room for the string but not for its frame, the producer's own limits reject what it
emits. -/
theorem stringSerde_rejects_own_output :
    (string ⟨3, 3, 3, 10⟩).TakesLimits ∧ (string ⟨3, 3, 3, 10⟩).Uses ⟨3, 3, 3, 10⟩ ∧
      ∃ b, (string ⟨3, 3, 3, 10⟩).serde.serialize "abc" = .ok b ∧
        (string ⟨3, 3, 3, 10⟩).serde.deserialize b =
          .error ⟨"serde input exceeds configured limit", 0⟩ := by
  refine ⟨trivial, rfl, [0, 0, 0, 0, 0, 0, 0, 3, 97, 98, 99], ?_, ?_⟩
  · decide +kernel
  · rfl

end Nesting

end ServiceLib.Serde
