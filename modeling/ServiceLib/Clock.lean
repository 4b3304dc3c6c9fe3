import Mathlib.Data.Int.Order.Basic
import Mathlib.Order.Basic
import Mathlib.Tactic.Ring

/-!
# Durations and instants

The time types of the standard library: a duration is a `u64` of seconds and a number of
nanoseconds, an instant an `i64` of seconds and a number of nanoseconds. Both are determined by
their number of nanoseconds, and checked addition is exact or fails.
-/

namespace ServiceLib

/-- `NANOS_PER_SEC` -/
def nanosPerSec : ℕ := 1000000000

theorem nanosPerSec_eq : nanosPerSec = 1000000000 := rfl

instance instNeZeroNanosPerSec : NeZero nanosPerSec := ⟨by decide⟩

/-- `u64::saturating_mul` -/
def saturatingMul (a b : UInt64) : UInt64 :=
  if a.toNat * b.toNat < 2 ^ 64 then a * b else UInt64.ofNat (2 ^ 64 - 1)

theorem saturatingMul_toNat (a b : UInt64) :
    (saturatingMul a b).toNat = min (a.toNat * b.toNat) (2 ^ 64 - 1) := by
  rw [saturatingMul]
  split
  case isTrue h =>
    rw [UInt64.toNat_mul, Nat.mod_eq_of_lt h]
    omega
  case isFalse h =>
    have hmax : (UInt64.ofNat (2 ^ 64 - 1)).toNat = 2 ^ 64 - 1 := by decide
    rw [hmax]
    omega

/-! ## Durations -/

/-- `std::time::Duration` -/
structure Duration where
  secs : UInt64
  nanos : Fin nanosPerSec
deriving DecidableEq, Repr

namespace Duration

def asNanos (d : Duration) : ℕ := d.secs.toNat * nanosPerSec + d.nanos

/-- A number of `1 / perSec` seconds, of `nanosPerSec / perSec` nanoseconds each. -/
def fromParts (perSec : UInt64) (number : UInt64) : Duration where
  secs := number / perSec
  nanos := Fin.ofNat nanosPerSec ((number % perSec).toNat * (nanosPerSec / perSec.toNat))

def fromSecs (number : UInt64) : Duration := ⟨number, 0⟩

def fromMillis : UInt64 → Duration := fromParts 1000

def fromMicros : UInt64 → Duration := fromParts 1000000

def fromNanos : UInt64 → Duration := fromParts 1000000000

theorem fromSecs_asNanos (number : UInt64) :
    (fromSecs number).asNanos = number.toNat * nanosPerSec := by
  simp [fromSecs, asNanos]

theorem fromParts_asNanos {perSec : UInt64} (number : UInt64)
    (hdvd : perSec.toNat ∣ nanosPerSec) :
    (fromParts perSec number).asNanos = number.toNat * (nanosPerSec / perSec.toNat) := by
  have hpos : 0 < perSec.toNat := Nat.pos_of_dvd_of_pos hdvd (by decide)
  have hpart : nanosPerSec = perSec.toNat * (nanosPerSec / perSec.toNat) :=
    (Nat.mul_div_cancel' hdvd).symm
  generalize hq : nanosPerSec / perSec.toNat = part at hpart
  have hpartPos : 0 < part := by
    refine Nat.pos_of_ne_zero fun h => ?_
    rw [h, Nat.mul_zero] at hpart
    exact absurd hpart (by decide)
  have hrest : number.toNat % perSec.toNat * part < nanosPerSec := by
    conv_rhs => rw [hpart]
    exact Nat.mul_lt_mul_of_pos_right (Nat.mod_lt _ hpos) hpartPos
  have hnanos : ((fromParts perSec number).nanos : ℕ) = number.toNat % perSec.toNat * part := by
    rw [fromParts, hq, Fin.val_ofNat, UInt64.toNat_mod, Nat.mod_eq_of_lt hrest]
  have hsecs : (fromParts perSec number).secs.toNat = number.toNat / perSec.toNat :=
    UInt64.toNat_div ..
  calc (fromParts perSec number).asNanos
      = number.toNat / perSec.toNat * nanosPerSec + number.toNat % perSec.toNat * part := by
        rw [asNanos, hsecs, hnanos]
    _ = (perSec.toNat * (number.toNat / perSec.toNat) + number.toNat % perSec.toNat) * part := by
        conv_lhs => rw [hpart]
        ring
    _ = number.toNat * part := by rw [Nat.div_add_mod]

end Duration

/-! ## Instants -/

/-- `std::time::Instant`, a signed 64-bit number of seconds and a number of nanoseconds. -/
structure Instant where
  secs : ℤ
  nanos : Fin nanosPerSec
  secs_ge : -2 ^ 63 ≤ secs
  secs_lt : secs < 2 ^ 63
deriving DecidableEq

namespace Instant

def asNanos (t : Instant) : ℤ := t.secs * nanosPerSec + t.nanos

/-- The start of the clock. -/
def zero : Instant := ⟨0, 0, by decide, by decide⟩

/-- The first number of nanoseconds that is no instant. -/
def limit : ℤ := 2 ^ 63 * nanosPerSec

theorem asNanos_lt (t : Instant) : t.asNanos < limit := by
  have hnanos := t.nanos.isLt
  have hsecs := t.secs_lt
  simp only [asNanos, limit, nanosPerSec_eq] at *
  omega

theorem asNanos_injective : Function.Injective asNanos := by
  intro s t h
  have hs := s.nanos.isLt
  have ht := t.nanos.isLt
  obtain ⟨secs, nanos, _, _⟩ := s
  obtain ⟨secs', nanos', _, _⟩ := t
  simp only [asNanos, nanosPerSec_eq] at *
  obtain rfl : secs = secs' := by omega
  obtain rfl : nanos = nanos' := Fin.ext (by omega)
  rfl

instance instLinearOrderInstant : LinearOrder Instant :=
  LinearOrder.lift' asNanos asNanos_injective

theorem le_iff {s t : Instant} : s ≤ t ↔ s.asNanos ≤ t.asNanos := Iff.rfl

theorem asNanos_min (s t : Instant) : (min s t).asNanos = min s.asNanos t.asNanos := by
  obtain h | h := le_total s t
  · rw [min_eq_left h, min_eq_left (le_iff.mp h)]
  · rw [min_eq_right h, min_eq_right (le_iff.mp h)]

/-- `Instant::checked_add`: the seconds are added first, then the carry of the nanoseconds. -/
def checkedAdd (t : Instant) (d : Duration) : Option Instant :=
  if hsecs : t.secs + d.secs.toNat < 2 ^ 63 then
    if hnanos : (t.nanos : ℕ) + d.nanos < nanosPerSec then
      some ⟨t.secs + d.secs.toNat, ⟨t.nanos + d.nanos, hnanos⟩, by have := t.secs_ge; omega, hsecs⟩
    else if hcarry : t.secs + d.secs.toNat + 1 < 2 ^ 63 then
      some ⟨t.secs + d.secs.toNat + 1, ⟨t.nanos + d.nanos - nanosPerSec, by omega⟩,
        by have := t.secs_ge; omega, hcarry⟩
    else none
  else none

theorem asNanos_of_checkedAdd {t s : Instant} {d : Duration} (h : t.checkedAdd d = some s) :
    s.asNanos = t.asNanos + d.asNanos := by
  have hsec := nanosPerSec_eq
  rw [checkedAdd] at h
  split at h
  case isFalse => cases h
  case isTrue hsecs =>
    split at h
    case isTrue hnanos =>
      obtain rfl := Option.some.inj h
      simp only [asNanos, Duration.asNanos]
      push_cast
      ring
    case isFalse hnanos =>
      split at h
      case isFalse => cases h
      case isTrue hcarry =>
        obtain rfl := Option.some.inj h
        have hcast : ((t.nanos + d.nanos - nanosPerSec : ℕ) : ℤ) =
            t.nanos + d.nanos - nanosPerSec := by omega
        simp only [asNanos, Duration.asNanos, hcast]
        push_cast
        ring

theorem checkedAdd_isSome_iff {t : Instant} {d : Duration} :
    (t.checkedAdd d).isSome = true ↔ t.asNanos + d.asNanos < limit := by
  have hn : (t.nanos : ℕ) < 1000000000 := t.nanos.isLt
  have hd : (d.nanos : ℕ) < 1000000000 := d.nanos.isLt
  have hsum : t.asNanos + d.asNanos =
      (t.secs + d.secs.toNat) * 1000000000 + (t.nanos + d.nanos) := by
    simp only [asNanos, Duration.asNanos, nanosPerSec_eq]
    push_cast
    ring
  have hlimit : limit = 9223372036854775808 * 1000000000 := rfl
  have hsec := nanosPerSec_eq
  rw [checkedAdd, hsum, hlimit]
  split
  case isFalse hsecs =>
    simp only [Option.isSome_none, Bool.false_eq_true, false_iff]
    omega
  case isTrue hsecs =>
    split
    case isTrue hnanos =>
      simp only [Option.isSome_some, true_iff]
      omega
    case isFalse hnanos =>
      split
      case isTrue hcarry =>
        simp only [Option.isSome_some, true_iff]
        omega
      case isFalse hcarry =>
        simp only [Option.isSome_none, Bool.false_eq_true, false_iff]
        omega

/-- Checked addition is the sum, if that is an instant. -/
theorem checkedAdd_eq_some_iff {t s : Instant} {d : Duration} :
    t.checkedAdd d = some s ↔ s.asNanos = t.asNanos + d.asNanos := by
  constructor
  · exact asNanos_of_checkedAdd
  · intro h
    have hfits : t.asNanos + d.asNanos < limit := h ▸ s.asNanos_lt
    obtain ⟨r, hr⟩ := Option.isSome_iff_exists.mp (checkedAdd_isSome_iff.mpr hfits)
    rw [hr, asNanos_injective ((asNanos_of_checkedAdd hr).trans h.symm)]

end Instant

end ServiceLib
