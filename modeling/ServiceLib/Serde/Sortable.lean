import ServiceLib.Serde.RoundTrip

/-!
# Sortable integer keys

The wide signed integers are written with their sign bit flipped, the unsigned ones as they are,
both big-endian (`src/runtime/serde/serdeimpl.rs`, `signed_serde!` and `unsigned_serde!`). The
purpose of the flip is that byte strings compare as the integers do, so a store that keeps its
keys sorted as bytes keeps them sorted as integers.

**Theorem (`integer_serdes_sortable`).** For every integer width but the eight-bit signed one the
encoder is an order isomorphism from the type to the byte strings of its width, and the decoder is
its inverse. The eight-bit signed integers keep their raw byte and are not sortable
(`int8Serde_not_sortable`).

The idea: an integer is encoded as the word `toBe width n` for one number `n`. Words of one width
are ordered as their numbers (`toBe_lt_toBe_iff`), and flipping the sign bit adds half the range
(`toNat_xor_intMin`), so `n` is the integer up to a shift.
-/

namespace ServiceLib.Serde

open Decoder

/-- The encoder is an order isomorphism from `T` to the byte strings of length `width`, ordered
lexicographically, and the decoder is its inverse. -/
structure Sortable {T : Type} [LT T] (s : Serde T) (width : ℕ) : Prop where
  encodes : ∀ a, ∃ b, s.serialize a = .ok b ∧ b.length = width
  lt_iff : ∀ a b ab bb, s.serialize a = .ok ab → s.serialize b = .ok bb →
    (a < b ↔ List.Lex (· < ·) ab bb)
  decode_encode : ∀ a b, s.serialize a = .ok b → s.deserialize b = .ok a
  encode_decode : ∀ b : Bytes, b.length = width →
    ∃ a, s.deserialize b = .ok a ∧ s.serialize a = .ok b

/-! ## Words -/

section Words

variable {T : Type} [LT T] {s : Serde T} {width : ℕ} {name : String}

/-- A serde that writes one big-endian word per value is sortable as soon as the numbering of the
values is an order isomorphism onto the numbers of that width. -/
theorem sortable_of_word (toWord : T → ℕ) (ofWord : ℕ → T) (hwidth : width ≤ isizeMax)
    (hser : ∀ v, s.serialize v = .ok (toBe width (toWord v)))
    (hdes : ∀ data, s.deserialize data =
      withReader data usizeMax (read width name >>= fun bs => pure (ofWord (ofBe bs))))
    (hlt : ∀ v, toWord v < 256 ^ width) (hleft : ∀ v, ofWord (toWord v) = v)
    (hright : ∀ n, n < 256 ^ width → toWord (ofWord n) = n)
    (hmono : ∀ a b, a < b ↔ toWord a < toWord b) : Sortable s width where
  encodes := by
    intro a
    exact ⟨_, hser a, length_toBe width (toWord a)⟩
  lt_iff := by
    intro a b ab bb ha hb
    rw [hser, Except.ok.injEq] at ha hb
    subst ha hb
    calc a < b ↔ toWord a < toWord b := hmono a b
      _ ↔ toBe width (toWord a) < toBe width (toWord b) :=
        (toBe_lt_toBe_iff (hlt a) (hlt b)).symm
  decode_encode := by
    intro a b h
    rw [hser, Except.ok.injEq] at h
    subst h
    have hlen := length_toBe width (toWord a)
    have hdec := (decodes_fixed (f := fun bs => ofWord (ofBe bs)) hdes hlen
      (hlen.trans_le hwidth)).exact (hlen.trans_le hwidth)
    rwa [ofBe_toBe_of_lt (hlt a), hleft] at hdec
  encode_decode := by
    intro b hlen
    have hb : b.length ≤ isizeMax := hlen.trans_le hwidth
    have hword : ofBe b < 256 ^ width := by
      rw [← hlen]
      exact ofBe_lt b
    refine ⟨ofWord (ofBe b),
      (decodes_fixed (f := fun bs => ofWord (ofBe bs)) hdes hlen hb).exact hb, ?_⟩
    rw [hser, hright _ hword, ← hlen, toBe_ofBe]

end Words

/-! ## The macros -/

theorem unsignedSerde_sortable {T : Type} [LT T] {name : String} {size : ℕ} {toNat : T → ℕ}
    {ofNat : ℕ → T} (hsize : size ≤ isizeMax) (hlt : ∀ v, toNat v < 256 ^ size)
    (hleft : ∀ v, ofNat (toNat v) = v) (hright : ∀ n, n < 256 ^ size → toNat (ofNat n) = n)
    (hmono : ∀ a b, a < b ↔ toNat a < toNat b) :
    Sortable (unsignedSerde name size toNat ofNat) size :=
  sortable_of_word toNat ofNat hsize (fun _ => rfl) (fun _ => rfl) hlt hleft hright hmono

theorem signedSerde_sortable {T U : Type} [LT T] [XorOp U] {name : String} {size : ℕ}
    {asUnsigned : T → U} {asSigned : U → T} {toNat : U → ℕ} {ofNat : ℕ → U} {mask : U}
    (hsize : size ≤ isizeMax) (hlt : ∀ u, toNat u < 256 ^ size) (hof : ∀ u, ofNat (toNat u) = u)
    (hto : ∀ n, n < 256 ^ size → toNat (ofNat n) = n)
    (hsigned : ∀ v, asSigned (asUnsigned v ^^^ mask ^^^ mask) = v)
    (hunsigned : ∀ u, asUnsigned (asSigned (u ^^^ mask)) ^^^ mask = u)
    (hmono : ∀ a b, a < b ↔ toNat (asUnsigned a ^^^ mask) < toNat (asUnsigned b ^^^ mask)) :
    Sortable (signedSerde name size asUnsigned asSigned toNat ofNat mask) size := by
  refine sortable_of_word (fun v => toNat (asUnsigned v ^^^ mask))
    (fun n => asSigned (ofNat n ^^^ mask)) hsize (fun _ => rfl) (fun _ => rfl)
    (fun v => hlt _) ?_ ?_ hmono
  · intro v
    rw [hof, hsigned]
  · intro n hn
    rw [hunsigned, hto n hn]

/-! ## The integer serdes -/

theorem uint8Serde_sortable : Sortable uint8Serde 1 :=
  unsignedSerde_sortable (by decide) (fun v => v.toNat_lt) (fun _ => UInt8.ofNat_toNat)
    (fun _ hn => UInt8.toNat_ofNat_of_lt' hn) fun _ _ => UInt8.lt_iff_toNat_lt

theorem uint16Serde_sortable : Sortable uint16Serde 2 :=
  unsignedSerde_sortable (by decide) (fun v => v.toNat_lt) (fun _ => UInt16.ofNat_toNat)
    (fun _ hn => UInt16.toNat_ofNat_of_lt' hn) fun _ _ => UInt16.lt_iff_toNat_lt

theorem uint32Serde_sortable : Sortable uint32Serde 4 :=
  unsignedSerde_sortable (by decide) (fun v => v.toNat_lt) (fun _ => UInt32.ofNat_toNat)
    (fun _ hn => UInt32.toNat_ofNat_of_lt' hn) fun _ _ => UInt32.lt_iff_toNat_lt

theorem uint64Serde_sortable : Sortable uint64Serde 8 :=
  unsignedSerde_sortable (by decide) (fun v => v.toNat_lt) (fun _ => UInt64.ofNat_toNat)
    (fun _ hn => UInt64.toNat_ofNat_of_lt' hn) fun _ _ => UInt64.lt_iff_toNat_lt

-- In each signed case the mask is the sign bit alone, `BitVec.intMin` of the width.
theorem int16Serde_sortable : Sortable int16Serde 2 :=
  signedSerde_sortable (by decide) (fun u => u.toNat_lt) (fun _ => UInt16.ofNat_toNat)
    (fun _ hn => UInt16.toNat_ofNat_of_lt' hn) (fun v => by simp)
    (fun u => by rw [UInt16.toUInt16_toInt16, UInt16.xor_assoc, UInt16.xor_self, UInt16.xor_zero])
    fun a b => slt_iff_toNat_xor_intMin_lt a.toBitVec b.toBitVec

theorem int32Serde_sortable : Sortable int32Serde 4 :=
  signedSerde_sortable (by decide) (fun u => u.toNat_lt) (fun _ => UInt32.ofNat_toNat)
    (fun _ hn => UInt32.toNat_ofNat_of_lt' hn) (fun v => by simp)
    (fun u => by rw [UInt32.toUInt32_toInt32, UInt32.xor_assoc, UInt32.xor_self, UInt32.xor_zero])
    fun a b => slt_iff_toNat_xor_intMin_lt a.toBitVec b.toBitVec

theorem int64Serde_sortable : Sortable int64Serde 8 :=
  signedSerde_sortable (by decide) (fun u => u.toNat_lt) (fun _ => UInt64.ofNat_toNat)
    (fun _ hn => UInt64.toNat_ofNat_of_lt' hn) (fun v => by simp)
    (fun u => by rw [UInt64.toUInt64_toInt64, UInt64.xor_assoc, UInt64.xor_self, UInt64.xor_zero])
    fun a b => slt_iff_toNat_xor_intMin_lt a.toBitVec b.toBitVec

/-- **Sortable integer encoding.** For `i16`, `i32`, `i64`, `u8`, `u16`, `u32` and `u64` the order
of the values is the lexicographic order of their encodings, and encoder and decoder are mutually
inverse bijections between the type and the byte strings of its width. -/
theorem integer_serdes_sortable :
    Sortable int16Serde 2 ∧ Sortable int32Serde 4 ∧ Sortable int64Serde 8 ∧
      Sortable uint8Serde 1 ∧ Sortable uint16Serde 2 ∧ Sortable uint32Serde 4 ∧
      Sortable uint64Serde 8 :=
  ⟨int16Serde_sortable, int32Serde_sortable, int64Serde_sortable, uint8Serde_sortable,
    uint16Serde_sortable, uint32Serde_sortable, uint64Serde_sortable⟩

example : int16Serde.serialize (-1) = .ok [0x7F, 0xFF] ∧
    int16Serde.serialize 0 = .ok [0x80, 0x00] := by
  decide

/-- The zero mask of the eight-bit signed integers leaves `-1` above `0`. -/
theorem int8Serde_not_sortable : ¬ Sortable int8Serde 1 := by
  intro h
  have hlex := (h.lt_iff (-1) 0 [0xFF] [0x00] rfl rfl).1 (by decide)
  have hnot : ¬ ([0xFF] : Bytes) < [0x00] := by decide
  exact hnot hlex

end ServiceLib.Serde
