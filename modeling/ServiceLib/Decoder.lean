import Mathlib

/-!
# Cursor decoders

A decoder walks a byte string with a cursor and may fail. Two properties of a decoder are enough
to verify a format, and both compose:

* `Consumes d b v` — wherever `b` stands at the cursor, `d` reads exactly `b` and returns `v`;
* `Stable d` — what `d` accepts on some input it accepts on every extension of that input, with
  the same value and the same cursor, and it never moves the cursor past the end.

Together they say that a format is self-delimiting: an encoding followed by anything decodes to
the value that was encoded, and no proper prefix of an encoding decodes at all.

Inputs are bounded by `maxLen`, the largest byte string the host language can hold.
-/

namespace ServiceLib

abbrev Bytes := List UInt8

/-! ## Big-endian numbers -/

/-- The `w` low-order bytes of `n`, most significant first. -/
def toBe : ℕ → ℕ → Bytes
  | 0, _ => []
  | w + 1, n => toBe w (n / 256) ++ [UInt8.ofNat n]

/-- The number a big-endian byte string stands for. -/
def ofBe (bs : Bytes) : ℕ := bs.foldl (fun acc b => acc * 256 + b.toNat) 0

@[simp] theorem length_toBe (w n : ℕ) : (toBe w n).length = w := by
  induction w generalizing n with
  | zero => rfl
  | succ w ih => simp [toBe, ih]

theorem ofBe_append_singleton (bs : Bytes) (b : UInt8) :
    ofBe (bs ++ [b]) = ofBe bs * 256 + b.toNat := by
  simp [ofBe]

theorem ofBe_toBe (w n : ℕ) : ofBe (toBe w n) = n % 256 ^ w := by
  induction w generalizing n with
  | zero => simp [toBe, ofBe, Nat.mod_one]
  | succ w ih =>
    rw [toBe, ofBe_append_singleton, ih, pow_succ', Nat.mod_mul]
    simp
    omega

theorem ofBe_toBe_of_lt {w n : ℕ} (h : n < 256 ^ w) : ofBe (toBe w n) = n := by
  rw [ofBe_toBe, Nat.mod_eq_of_lt h]

theorem toBe_injective {w m n : ℕ} (hm : m < 256 ^ w) (hn : n < 256 ^ w)
    (h : toBe w m = toBe w n) : m = n := by
  rw [← ofBe_toBe_of_lt hm, ← ofBe_toBe_of_lt hn, h]

theorem ofBe_lt (bs : Bytes) : ofBe bs < 256 ^ bs.length := by
  induction bs using List.reverseRecOn with
  | nil => simp [ofBe]
  | append_singleton bs b ih =>
    rw [ofBe_append_singleton, List.length_append, List.length_singleton, pow_succ]
    have hb : b.toNat < 256 := b.toNat_lt
    omega

theorem toBe_ofBe (bs : Bytes) : toBe bs.length (ofBe bs) = bs := by
  induction bs using List.reverseRecOn with
  | nil => rfl
  | append_singleton bs b ih =>
    have hb : b.toNat < 256 := b.toNat_lt
    have hdiv : (ofBe bs * 256 + b.toNat) / 256 = ofBe bs := by omega
    have hlow : UInt8.ofNat (ofBe bs * 256 + b.toNat) = b := by
      apply UInt8.toNat_inj.1
      rw [UInt8.toNat_ofNat']
      omega
    rw [ofBe_append_singleton, List.length_append, List.length_singleton, toBe, hdiv, hlow, ih]

/-- Among words of one length, the last letter decides only between equal beginnings. -/
theorem append_singleton_lt_iff {xs ys : Bytes} (h : xs.length = ys.length) (x y : UInt8) :
    xs ++ [x] < ys ++ [y] ↔ xs < ys ∨ xs = ys ∧ x < y := by
  induction xs generalizing ys with
  | nil =>
    cases ys with
    | nil => simp [List.cons_lt_cons_iff]
    | cons b ys => cases h
  | cons a xs ih =>
    cases ys with
    | nil => cases h
    | cons b ys =>
      have hlen : xs.length = ys.length := by simpa using h
      simp only [List.cons_append, List.cons_lt_cons_iff, ih hlen, List.cons.injEq]
      tauto

/-- Big-endian words of one width are ordered as the numbers they stand for. -/
theorem toBe_lt_toBe_iff {w m n : ℕ} (hm : m < 256 ^ w) (hn : n < 256 ^ w) :
    toBe w m < toBe w n ↔ m < n := by
  induction w generalizing m n with
  | zero =>
    have hm0 : m = 0 := by simpa using hm
    have hn0 : n = 0 := by simpa using hn
    simp [toBe, hm0, hn0]
  | succ w ih =>
    rw [pow_succ] at hm hn
    have hm' : m / 256 < 256 ^ w := by omega
    have hn' : n / 256 < 256 ^ w := by omega
    have heq : toBe w (m / 256) = toBe w (n / 256) ↔ m / 256 = n / 256 :=
      ⟨toBe_injective hm' hn', congrArg (toBe w)⟩
    have hlow : UInt8.ofNat m < UInt8.ofNat n ↔ m % 256 < n % 256 := by
      rw [UInt8.lt_iff_toNat_lt, UInt8.toNat_ofNat', UInt8.toNat_ofNat']
    rw [toBe, toBe, append_singleton_lt_iff (by simp), ih hm' hn', heq, hlow]
    omega

/-! ### Two's complement -/

theorem xor_two_pow {w a : ℕ} (h : a < 2 ^ (w + 1)) :
    a ^^^ 2 ^ w = if a < 2 ^ w then a + 2 ^ w else a - 2 ^ w := by
  have hpos : 0 < 2 ^ w := Nat.two_pow_pos w
  have hdiv : (a ^^^ 2 ^ w) / 2 ^ w = a / 2 ^ w ^^^ 1 := by
    rw [Nat.xor_div_two_pow, Nat.div_self hpos]
  have hmod : (a ^^^ 2 ^ w) % 2 ^ w = a % 2 ^ w := by
    rw [Nat.xor_mod_two_pow, Nat.mod_self, Nat.xor_zero]
  have hsplit := Nat.div_add_mod (a ^^^ 2 ^ w) (2 ^ w)
  have ha := Nat.div_add_mod a (2 ^ w)
  rw [hdiv, hmod] at hsplit
  rw [pow_succ] at h
  split_ifs with hlt
  · rw [Nat.div_eq_of_lt hlt, Nat.mod_eq_of_lt hlt, Nat.zero_xor, Nat.mul_one] at hsplit
    omega
  · have hone : a / 2 ^ w = 1 := Nat.div_eq_of_lt_le (by omega) (by omega)
    rw [hone, Nat.xor_self, Nat.mul_zero] at hsplit
    rw [hone] at ha
    omega

/-- Flipping the sign bit shifts the signed range onto the unsigned one. -/
theorem toNat_xor_intMin {w : ℕ} (x : BitVec (w + 1)) :
    ((x ^^^ BitVec.intMin (w + 1)).toNat : ℤ) = x.toInt + 2 ^ w := by
  have hx : x.toNat < 2 ^ (w + 1) := x.isLt
  have hcast : (2 : ℤ) ^ w = ((2 ^ w : ℕ) : ℤ) := by push_cast; rfl
  rw [BitVec.toNat_xor, BitVec.toNat_intMin_of_pos (Nat.succ_pos w), Nat.succ_sub_one,
    xor_two_pow hx, BitVec.toInt_eq_toNat_cond, hcast, pow_succ]
  split_ifs <;> omega

theorem slt_iff_toNat_xor_intMin_lt {w : ℕ} (x y : BitVec (w + 1)) :
    x.slt y ↔ (x ^^^ BitVec.intMin (w + 1)).toNat < (y ^^^ BitVec.intMin (w + 1)).toNat := by
  have hx := toNat_xor_intMin x
  have hy := toNat_xor_intMin y
  rw [BitVec.slt_iff_toInt_lt]
  omega

/-! ## Decoders -/

/-- An input and the position of the next unread byte. -/
structure Cursor where
  data : Bytes
  offset : ℕ

/-- A decoder threads the cursor and may fail. -/
abbrev Decoder (ε α : Type) := StateT Cursor (Except ε) α

namespace Decoder

variable {ε α β : Type}

/-- `d` reads exactly `b` and returns `v`, whatever stands before and after `b`. -/
def Consumes (maxLen : ℕ) (d : Decoder ε α) (b : Bytes) (v : α) : Prop :=
  ∀ front rest : Bytes, (front ++ b ++ rest).length ≤ maxLen →
    d ⟨front ++ b ++ rest, front.length⟩ =
      .ok (v, ⟨front ++ b ++ rest, front.length + b.length⟩)

/-- Acceptance survives extending the input, and the cursor stays inside the input. -/
def Stable (d : Decoder ε α) : Prop :=
  ∀ (data ext : Bytes) (offset : ℕ) (v : α) (c : Cursor), offset ≤ data.length →
    d ⟨data, offset⟩ = .ok (v, c) →
      c.data = data ∧ c.offset ≤ data.length ∧
        d ⟨data ++ ext, offset⟩ = .ok (v, ⟨data ++ ext, c.offset⟩)

theorem bind_eq_ok {d : Decoder ε α} {k : α → Decoder ε β} {c : Cursor} {r : β × Cursor} :
    (d >>= k) c = .ok r ↔ ∃ p, d c = .ok p ∧ k p.1 p.2 = .ok r := by
  cases hd : d c with
  | error e =>
    simp only [bind, StateT.bind, Except.bind, hd]
    simp
  | ok p =>
    simp only [bind, StateT.bind, Except.bind, hd]
    simp

/-! ### Sequencing -/

theorem Consumes.pure (maxLen : ℕ) (v : α) :
    Consumes maxLen (Pure.pure v : Decoder ε α) [] v := by
  intro front rest _
  simp [Pure.pure, StateT.pure, Except.pure]

theorem Consumes.bind {maxLen : ℕ} {d : Decoder ε α} {k : α → Decoder ε β} {b b' : Bytes}
    {v : α} {w : β} (hd : Consumes maxLen d b v) (hk : Consumes maxLen (k v) b' w) :
    Consumes maxLen (d >>= k) (b ++ b') w := by
  intro front rest hlen
  have hd' := hd front (b' ++ rest) (by simpa using hlen)
  have hk' := hk (front ++ b) rest (by simpa using hlen)
  simp only [List.append_assoc] at hd' hk' ⊢
  refine bind_eq_ok.2 ⟨_, hd', ?_⟩
  simpa [Nat.add_assoc] using hk'

theorem Stable.pure (v : α) : Stable (Pure.pure v : Decoder ε α) := by
  intro data ext offset w c hoff h
  simp only [Pure.pure, StateT.pure, Except.pure, Except.ok.injEq, Prod.mk.injEq] at h ⊢
  obtain ⟨rfl, rfl⟩ := h
  exact ⟨rfl, hoff, rfl, rfl⟩

theorem Stable.throw (e : ε) : Stable (throw e : Decoder ε α) := by
  intro data ext offset w c _ h
  cases h

theorem Stable.bind {d : Decoder ε α} {k : α → Decoder ε β} (hd : Stable d)
    (hk : ∀ v, Stable (k v)) : Stable (d >>= k) := by
  intro data ext offset w c hoff h
  obtain ⟨⟨v, c'⟩, hd', hk'⟩ := bind_eq_ok.1 h
  obtain ⟨hdata, hoff', hext⟩ := hd data ext offset v c' hoff hd'
  obtain ⟨data', offset'⟩ := c'
  simp only at hdata hoff' hext hk'
  subst hdata
  obtain ⟨hdata, hoff'', hext'⟩ := hk v data' ext offset' w c hoff' hk'
  exact ⟨hdata, hoff'', bind_eq_ok.2 ⟨_, hext, hext'⟩⟩

/-- A pure computation that may fail, between two reads. -/
theorem Stable.lift (x : Except ε α) : Stable (liftM x : Decoder ε α) := by
  cases x with
  | error e => exact Stable.throw e
  | ok v => exact Stable.pure v

theorem Consumes.lift (maxLen : ℕ) (v : α) :
    Consumes maxLen (liftM (Except.ok v : Except ε α) : Decoder ε α) [] v :=
  Consumes.pure maxLen v

/-! ### Looking at the offset -/

theorem Stable.getOffset {k : ℕ → Decoder ε α} (hk : ∀ o, Stable (k o)) :
    Stable (get >>= fun c => k c.offset) :=
  fun data ext offset v c hoff h => hk offset data ext offset v c hoff h

theorem Consumes.getOffset {maxLen : ℕ} {k : ℕ → Decoder ε α} {b : Bytes} {v : α}
    (hk : ∀ o, Consumes maxLen (k o) b v) : Consumes maxLen (get >>= fun c => k c.offset) b v :=
  fun front rest hlen => hk front.length front rest hlen

/-! ### Repetition -/

/-- `for _ in 0..n { result.push(d?) }` -/
def times (d : Decoder ε α) : ℕ → Decoder ε (List α)
  | 0 => Pure.pure []
  | n + 1 => do
    let v ← d
    let vs ← times d n
    Pure.pure (v :: vs)

theorem Stable.times {d : Decoder ε α} (hd : Stable d) (n : ℕ) : Stable (d.times n) := by
  induction n with
  | zero => exact Stable.pure []
  | succ n ih => exact hd.bind fun v => ih.bind fun vs => Stable.pure (v :: vs)

theorem Consumes.times {maxLen : ℕ} {d : Decoder ε α} {bs : List Bytes} {vs : List α}
    (h : List.Forall₂ (fun b v => Consumes maxLen d b v) bs vs) :
    Consumes maxLen (d.times vs.length) bs.flatten vs := by
  induction h with
  | nil => exact Consumes.pure maxLen []
  | @cons b v bs vs hd _ ih =>
    have htail : Consumes maxLen (d.times vs.length >>= fun ws => Pure.pure (v :: ws))
        (bs.flatten ++ []) (v :: vs) := ih.bind (Consumes.pure maxLen (v :: vs))
    rw [List.append_nil] at htail
    exact hd.bind htail

/-! ### Whole inputs -/

/-- An encoding followed by anything decodes to the encoded value. -/
theorem Consumes.decode {maxLen : ℕ} {d : Decoder ε α} {b : Bytes} {v : α}
    (h : Consumes maxLen d b v) {rest : Bytes} (hlen : (b ++ rest).length ≤ maxLen) :
    d ⟨b ++ rest, 0⟩ = .ok (v, ⟨b ++ rest, b.length⟩) := by
  simpa using h [] rest (by simpa using hlen)

/-- No proper prefix of an encoding decodes. -/
theorem Consumes.proper_prefix {maxLen : ℕ} {d : Decoder ε α} {b : Bytes} {v : α}
    (h : Consumes maxLen d b v) (hs : Stable d) (hlen : b.length ≤ maxLen) {p : Bytes}
    (hp : p <+: b) (hne : p ≠ b) : ∃ e, d ⟨p, 0⟩ = .error e := by
  cases hd : d ⟨p, 0⟩ with
  | error e => exact ⟨e, rfl⟩
  | ok r =>
    obtain ⟨w, c⟩ := r
    obtain ⟨ext, rfl⟩ := hp
    -- The run on the prefix would also be the run on all of `b`, which ends past the prefix.
    obtain ⟨-, hoff, hext⟩ := hs p ext 0 w c (Nat.zero_le _) hd
    have hfull := h [] [] (by simpa using hlen)
    simp only [List.nil_append, List.append_nil, List.length_nil, Nat.zero_add] at hfull
    rw [hext] at hfull
    have hoffset := congrArg (fun r : Except ε (α × Cursor) =>
      match r with | .ok p => p.2.offset | .error _ => 0) hfull
    simp only [List.length_append] at hoffset
    have hnil : ext.length = 0 := by omega
    exact absurd (by simp [List.length_eq_zero_iff.1 hnil]) hne

end Decoder

end ServiceLib
