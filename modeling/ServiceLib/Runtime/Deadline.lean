import ServiceLib.Runtime.Metadata

/-!
# Deadlines of gRPC requests

Follows `MessageContext::from_tonic_request_with_tracing` in `src/runtime/common.rs`. The metadata
of a request become the metadata of its context, and a `grpc-timeout` becomes a deadline: a number,
a unit, and an addition to the clock. A panic is an error of the model.

**Theorem (`deadline_returns_iff`).** A context is returned if and only if the clock has an instant
for the end of the timeout, where the seconds of the timeout saturate at the largest `u64`. The
unit is always cut off between two characters, a timeout that fits gives its exact deadline, and
without a timeout there is no deadline.

The idea: the parser accepts the numerals below `2 ^ 64` and no others, saturation only touches
timeouts that are beyond the clock, and checked addition is exact.
-/

namespace ServiceLib

/-- The panics of the standard library that the code can run into. -/
inductive Panic where
  /-- `str::split_at`, inside a character. -/
  | charBoundary
  /-- `Instant + Duration`, beyond the clock. -/
  | addOverflow
deriving DecidableEq, Repr

/-! ## Strings -/

/-- `str::is_char_boundary`: not before a continuation byte. -/
def isCharBoundary (text : Bytes) (mid : ℕ) : Bool :=
  mid == 0 || match text[mid]? with
    | none => mid == text.length
    | some b => b < 128 || 192 ≤ b

/-- `str::split_at` -/
def splitAtChar (text : Bytes) (mid : ℕ) : Except Panic (Bytes × Bytes) :=
  if isCharBoundary text mid then .ok (text.take mid, text.drop mid) else .error .charBoundary

def isAsciiDigit (b : UInt8) : Bool := 48 ≤ b && b ≤ 57

/-- One step of the parser: `checked_mul`, then `checked_add`. -/
def parseDigit (number : UInt64) (b : UInt8) : Option UInt64 :=
  if isAsciiDigit b = true ∧ number.toNat * 10 + (b.toNat - 48) < 2 ^ 64 then
    some (number * 10 + (b - 48).toUInt64)
  else none

/-- `str::parse::<u64>()`: a sign may stand before the digits. -/
def parseU64 (text : Bytes) : Option UInt64 :=
  let digits := if text.head? = some 43 then text.tail else text
  if digits.isEmpty then none else digits.foldlM parseDigit 0

/-! ## The code -/

/-- `tonic::metadata::KeyAndValueRef` -/
inductive KeyAndValue where
  | ascii (key : String) (value : Bytes)
  | binary (key : String) (value : Bytes)

def isTraceHeader (name : String) : Bool :=
  name == "x-trace" || name == "traceparent" || name == "tracestate" || name == "baggage"

/-- What the context keeps of an entry. -/
def tonicEntry (tracingEnabled : Bool) : KeyAndValue → Option (String × Bytes)
  | .ascii name value =>
    if !tracingEnabled && isTraceHeader name then none
    else (toStr value).map fun value => (name, value)
  | .binary _ _ => none

def tonicMetadata (tracingEnabled : Bool) (entries : List KeyAndValue) : HashMap String Bytes :=
  collect (entries.filterMap (tonicEntry tracingEnabled))

/-- The units `H`, `M`, `S`, `m`, `u` and `n`. -/
def timeoutDuration (number : UInt64) (unit : Bytes) : Option Duration :=
  if unit = [72] then some (.fromSecs (saturatingMul number (60 * 60)))
  else if unit = [77] then some (.fromSecs (saturatingMul number 60))
  else if unit = [83] then some (.fromSecs number)
  else if unit = [109] then some (.fromMillis number)
  else if unit = [117] then some (.fromMicros number)
  else if unit = [110] then some (.fromNanos number)
  else none

/-- The closure that parses a `grpc-timeout`. -/
def parseTimeout (value : Bytes) : Except Panic (Option Duration) :=
  if value.length = 0 then .ok none
  else do
    let (number, unit) ← splitAtChar value (value.length - 1)
    return (parseU64 number).bind fun number => timeoutDuration number unit

/-- `MessageContext::from_tonic_request_with_tracing`, with the clock at `now`. -/
def MessageContext.fromTonicRequestWithTracing (entries : List KeyAndValue) (tracingEnabled : Bool)
    (now : Instant) : Except Panic MessageContext := do
  let metadata := tonicMetadata tracingEnabled entries
  let timeout ← match metadata.lookup "grpc-timeout" with
    | none => pure none
    | some value => parseTimeout value
  let context := if tracingEnabled then MessageContext.new.withMetadata metadata
    else MessageContext.new.withMetadataUntraced metadata
  match timeout with
  | none => return context
  | some timeout =>
    match now.checkedAdd timeout with
    | none => .error .addOverflow
    | some deadline => return { context with deadline := some deadline }

/-! ## Numerals -/

/-- The number that digits stand for. -/
def decimal (digits : Bytes) : ℕ := digits.foldl (fun number b => number * 10 + (b.toNat - 48)) 0

/-- A decimal numeral, with or without a plus sign. -/
def Numeral (text : Bytes) (number : ℕ) : Prop :=
  ∃ digits, digits ≠ [] ∧ (text = digits ∨ text = 43 :: digits) ∧
    (∀ b ∈ digits, isAsciiDigit b = true) ∧ decimal digits = number

theorem le_foldl_decimal (digits : Bytes) (number : ℕ) :
    number ≤ digits.foldl (fun number b => number * 10 + (b.toNat - 48)) number := by
  induction digits generalizing number with
  | nil => exact le_rfl
  | cons b digits ih =>
    refine le_trans ?_ (ih (number * 10 + (b.toNat - 48)))
    omega

theorem isAsciiDigit_iff {b : UInt8} : isAsciiDigit b = true ↔ 48 ≤ b.toNat ∧ b.toNat ≤ 57 := by
  simp [isAsciiDigit, UInt8.le_iff_toNat_le]

theorem parseDigit_eq_some_iff {number next : UInt64} {b : UInt8} :
    parseDigit number b = some next ↔
      isAsciiDigit b = true ∧ next.toNat = number.toNat * 10 + (b.toNat - 48) := by
  rw [parseDigit]
  by_cases hdigit : isAsciiDigit b = true
  · have hsub : (b - 48).toUInt64.toNat = b.toNat - 48 := by
      rw [UInt8.toNat_toUInt64, UInt8.toNat_sub_of_le]
      · rfl
      · exact UInt8.le_iff_toNat_le.mpr (isAsciiDigit_iff.mp hdigit).1
    by_cases hfits : number.toNat * 10 + (b.toNat - 48) < 2 ^ 64
    · have hnext : (number * 10 + (b - 48).toUInt64).toNat =
          number.toNat * 10 + (b.toNat - 48) := by
        rw [UInt64.toNat_add, UInt64.toNat_mul, hsub]
        show (number.toNat * 10 % 2 ^ 64 + (b.toNat - 48)) % 2 ^ 64 = _
        omega
      rw [if_pos ⟨hdigit, hfits⟩, Option.some_inj, ← UInt64.toNat_inj, hnext]
      exact ⟨fun h => ⟨hdigit, h.symm⟩, fun h => h.2.symm⟩
    · rw [if_neg fun h => hfits h.2]
      have hlt := next.toNat_lt
      simp only [reduceCtorEq, false_iff]
      omega
  · rw [if_neg fun h => hdigit h.1]
    simp [hdigit]

theorem foldlM_parseDigit {digits : Bytes} {number result : UInt64} :
    digits.foldlM parseDigit number = some result ↔
      (∀ b ∈ digits, isAsciiDigit b = true) ∧
      digits.foldl (fun number b => number * 10 + (b.toNat - 48)) number.toNat = result.toNat := by
  induction digits generalizing number with
  | nil => simp [UInt64.toNat_inj]
  | cons b digits ih =>
    rw [List.foldlM_cons, List.foldl_cons, List.forall_mem_cons, Option.bind_eq_bind,
      Option.bind_eq_some_iff]
    constructor
    · intro ⟨next, hnext, hrest⟩
      obtain ⟨hdigit, hvalue⟩ := parseDigit_eq_some_iff.mp hnext
      obtain ⟨hdigits, hresult⟩ := ih.mp hrest
      exact ⟨⟨hdigit, hdigits⟩, hvalue ▸ hresult⟩
    · intro ⟨⟨hdigit, hdigits⟩, hresult⟩
      -- The number so far is at most the result, so that it is no overflow.
      have hle := le_foldl_decimal digits (number.toNat * 10 + (b.toNat - 48))
      have hlt : number.toNat * 10 + (b.toNat - 48) < 2 ^ 64 :=
        lt_of_le_of_lt (hresult ▸ hle) result.toNat_lt
      have hnext : (UInt64.ofNat (number.toNat * 10 + (b.toNat - 48))).toNat =
          number.toNat * 10 + (b.toNat - 48) := UInt64.toNat_ofNat_of_lt' hlt
      refine ⟨_, parseDigit_eq_some_iff.mpr ⟨hdigit, hnext⟩, ih.mpr ⟨hdigits, ?_⟩⟩
      rw [hnext]
      exact hresult

theorem parseU64_eq_some_iff {text : Bytes} {number : UInt64} :
    parseU64 text = some number ↔ Numeral text number.toNat := by
  have hparse : ∀ digits : Bytes,
      (if digits.isEmpty then none else digits.foldlM parseDigit 0) = some number ↔
        digits ≠ [] ∧ (∀ b ∈ digits, isAsciiDigit b = true) ∧ decimal digits = number.toNat := by
    intro digits
    cases digits with
    | nil => simp
    | cons b digits =>
      rw [if_neg (by simp), foldlM_parseDigit]
      simp [decimal]
  rw [parseU64, hparse]
  constructor
  · intro ⟨hne, hdigits, hvalue⟩
    refine ⟨_, hne, ?_, hdigits, hvalue⟩
    split
    case isTrue hsign => exact .inr (List.eq_cons_of_mem_head? hsign)
    case isFalse => exact .inl rfl
  · intro ⟨digits, hne, htext, hdigits, hvalue⟩
    obtain rfl | rfl := htext
    · have hsign : text.head? ≠ some 43 := by
        intro hsign
        have hmem := List.mem_of_mem_head? hsign
        exact absurd (hdigits 43 hmem) (by decide)
      rw [if_neg hsign]
      exact ⟨hne, hdigits, hvalue⟩
    · exact ⟨hne, hdigits, hvalue⟩

/-! ## Timeouts -/

/-- The nanoseconds of a unit. -/
def unitNanos (unit : UInt8) : Option ℕ :=
  if unit = 72 then some (3600 * nanosPerSec)
  else if unit = 77 then some (60 * nanosPerSec)
  else if unit = 83 then some nanosPerSec
  else if unit = 109 then some 1000000
  else if unit = 117 then some 1000
  else if unit = 110 then some 1
  else none

/-- A well-formed timeout of so many nanoseconds: a numeral that is a `u64`, and a unit. -/
def IsTimeout (value : Bytes) (nanos : ℕ) : Prop :=
  ∃ text unit number perUnit, value = text ++ [unit] ∧ Numeral text number ∧ number < 2 ^ 64 ∧
    unitNanos unit = some perUnit ∧ nanos = number * perUnit

/-- The seconds saturate at the largest `u64`. -/
def saturated (nanos : ℕ) : ℕ :=
  min (nanos / nanosPerSec) (2 ^ 64 - 1) * nanosPerSec + nanos % nanosPerSec

theorem saturated_of_lt {nanos : ℕ} (h : nanos < 2 ^ 64 * nanosPerSec) :
    saturated nanos = nanos := by
  have hmin : min (nanos / nanosPerSec) (2 ^ 64 - 1) = nanos / nanosPerSec := by
    have := Nat.div_lt_of_lt_mul (Nat.mul_comm _ _ ▸ h)
    omega
  rw [saturated, hmin, Nat.div_add_mod']

theorem saturated_secs (secs : ℕ) :
    saturated (secs * nanosPerSec) = min secs (2 ^ 64 - 1) * nanosPerSec := by
  rw [saturated, Nat.mul_div_cancel _ (by decide), Nat.mul_mod_left, Nat.add_zero]

theorem saturated_fits {now : Instant} {nanos : ℕ} (h : now.asNanos + nanos < Instant.limit) :
    saturated nanos = nanos := by
  apply saturated_of_lt
  have hsecs := now.secs_ge
  have hnanos := now.nanos.isLt
  simp only [Instant.asNanos, Instant.limit, nanosPerSec_eq] at *
  omega

theorem saturatingMul_asNanos (number factor : UInt64) :
    (Duration.fromSecs (saturatingMul number factor)).asNanos =
      saturated (number.toNat * (factor.toNat * nanosPerSec)) := by
  rw [Duration.fromSecs_asNanos, saturatingMul_toNat, ← Nat.mul_assoc, saturated_secs]

theorem fromParts_saturated {perSec : UInt64} (number : UInt64)
    (hdvd : perSec.toNat ∣ nanosPerSec) :
    (Duration.fromParts perSec number).asNanos =
      saturated (number.toNat * (nanosPerSec / perSec.toNat)) := by
  have hle : number.toNat * (nanosPerSec / perSec.toNat) ≤ number.toNat * nanosPerSec :=
    Nat.mul_le_mul_left _ (Nat.div_le_self _ _)
  have hlt : number.toNat * nanosPerSec < 2 ^ 64 * nanosPerSec :=
    Nat.mul_lt_mul_of_pos_right number.toNat_lt (by decide)
  rw [Duration.fromParts_asNanos number hdvd, saturated_of_lt (lt_of_le_of_lt hle hlt)]

theorem timeoutDuration_eq_none {number : UInt64} {unit : UInt8} (h : unitNanos unit = none) :
    timeoutDuration number [unit] = none := by
  simp only [unitNanos] at h
  simp only [timeoutDuration, List.cons.injEq, and_true]
  repeat' split at h
  all_goals simp_all

theorem unitNanos_cases {unit : UInt8} {perUnit : ℕ} (h : unitNanos unit = some perUnit) :
    (unit = 72 ∧ perUnit = 3600 * nanosPerSec) ∨ (unit = 77 ∧ perUnit = 60 * nanosPerSec) ∨
    (unit = 83 ∧ perUnit = nanosPerSec) ∨ (unit = 109 ∧ perUnit = 1000000) ∨
    (unit = 117 ∧ perUnit = 1000) ∨ (unit = 110 ∧ perUnit = 1) := by
  simp only [unitNanos] at h
  repeat' split at h
  all_goals simp_all

theorem timeoutDuration_eq_some {number : UInt64} {unit : UInt8} {perUnit : ℕ}
    (h : unitNanos unit = some perUnit) :
    ∃ d, timeoutDuration number [unit] = some d ∧
      d.asNanos = saturated (number.toNat * perUnit) := by
  obtain ⟨rfl, rfl⟩ | ⟨rfl, rfl⟩ | ⟨rfl, rfl⟩ | ⟨rfl, rfl⟩ | ⟨rfl, rfl⟩ | ⟨rfl, rfl⟩ :=
    unitNanos_cases h
  · exact ⟨_, rfl, saturatingMul_asNanos number (60 * 60)⟩
  · exact ⟨_, rfl, saturatingMul_asNanos number 60⟩
  · refine ⟨_, rfl, ?_⟩
    rw [Duration.fromSecs_asNanos, saturated_of_lt]
    exact Nat.mul_lt_mul_of_pos_right number.toNat_lt (by decide)
  · exact ⟨_, rfl, fromParts_saturated number (by decide)⟩
  · exact ⟨_, rfl, fromParts_saturated number (by decide)⟩
  · exact ⟨_, rfl, fromParts_saturated number (by decide)⟩

/-- The cut before the last byte of visible ASCII is between two characters. -/
theorem splitAtChar_visible {text : Bytes} {unit : UInt8} (h : isVisible (text ++ [unit]) = true) :
    splitAtChar (text ++ [unit]) text.length = .ok (text, [unit]) := by
  have hunit : isVisibleAscii unit = true := List.all_eq_true.mp h unit (by simp)
  have hlt : unit < 128 := by
    simp only [isVisibleAscii, Bool.or_eq_true, Bool.and_eq_true, decide_eq_true_iff,
      beq_iff_eq] at hunit
    obtain ⟨_, hlt⟩ | rfl := hunit
    · exact UInt8.lt_trans hlt (by decide)
    · decide
  have hboundary : isCharBoundary (text ++ [unit]) text.length = true := by
    simp [isCharBoundary, hlt]
  rw [splitAtChar, if_pos hboundary, List.take_left, List.drop_left]

theorem parseTimeout_append {text : Bytes} {unit : UInt8}
    (h : isVisible (text ++ [unit]) = true) :
    parseTimeout (text ++ [unit]) =
      .ok ((parseU64 text).bind fun number => timeoutDuration number [unit]) := by
  have hlength : (text ++ [unit]).length - 1 = text.length := by simp
  rw [parseTimeout, if_neg (by simp), hlength, splitAtChar_visible h]
  rfl

theorem isTimeout_append {text : Bytes} {unit : UInt8} {nanos : ℕ} :
    IsTimeout (text ++ [unit]) nanos ↔
      ∃ number perUnit, Numeral text number ∧ number < 2 ^ 64 ∧ unitNanos unit = some perUnit ∧
        nanos = number * perUnit := by
  constructor
  · intro ⟨text', unit', number, perUnit, happend, hrest⟩
    obtain ⟨rfl, hunit⟩ := List.append_inj' happend rfl
    obtain rfl := List.singleton_inj.mp hunit
    exact ⟨number, perUnit, hrest⟩
  · intro ⟨number, perUnit, hrest⟩
    exact ⟨text, unit, number, perUnit, rfl, hrest⟩

/-- What the parser makes of a value: never a panic, and the timeout if it is one. -/
theorem parseTimeout_visible {value : Bytes} (h : isVisible value = true) :
    ∃ timeout, parseTimeout value = .ok timeout ∧
      (∀ nanos, IsTimeout value nanos → ∃ d, timeout = some d ∧ d.asNanos = saturated nanos) ∧
      ((∀ nanos, ¬ IsTimeout value nanos) → timeout = none) := by
  cases value using List.reverseRecOn with
  | nil =>
    refine ⟨none, rfl, ?_, fun _ => rfl⟩
    intro nanos ⟨text, unit, _, _, happend, _⟩
    exact absurd happend.symm (by simp)
  | append_singleton text unit =>
    refine ⟨_, parseTimeout_append h, ?_, ?_⟩
    · intro nanos htimeout
      obtain ⟨number, perUnit, hnumeral, hlt, hunit, rfl⟩ := isTimeout_append.mp htimeout
      have hnumber : (UInt64.ofNat number).toNat = number := UInt64.toNat_ofNat_of_lt' hlt
      have hparse : parseU64 text = some (UInt64.ofNat number) :=
        parseU64_eq_some_iff.mpr (hnumber.symm ▸ hnumeral)
      obtain ⟨d, hd, hnanos⟩ := timeoutDuration_eq_some hunit
      rw [hparse]
      exact ⟨d, hd, hnumber ▸ hnanos⟩
    · intro hnone
      cases hparse : parseU64 text with
      | none => rfl
      | some number =>
        -- The numeral is one, so that it is the unit that is none.
        apply timeoutDuration_eq_none
        cases hunit : unitNanos unit with
        | none => rfl
        | some perUnit =>
          have htimeout : IsTimeout (text ++ [unit]) (number.toNat * perUnit) :=
            isTimeout_append.mpr
              ⟨number.toNat, perUnit, parseU64_eq_some_iff.mp hparse, number.toNat_lt, hunit, rfl⟩
          exact absurd htimeout (hnone _)

/-! ## The deadline -/

def timeoutEntry : KeyAndValue → Option Bytes
  | .ascii key value => if key = "grpc-timeout" ∧ isVisible value = true then some value else none
  | .binary _ _ => none

/-- The values of `grpc-timeout` that are visible ASCII. -/
def timeoutValues (entries : List KeyAndValue) : List Bytes := entries.filterMap timeoutEntry

/-- The request asks for a timeout of so many nanoseconds. -/
def AsksFor (entries : List KeyAndValue) (nanos : ℕ) : Prop :=
  ∃ value, (timeoutValues entries).getLast? = some value ∧ IsTimeout value nanos

theorem timeoutValues_visible {entries : List KeyAndValue} {value : Bytes}
    (h : (timeoutValues entries).getLast? = some value) : isVisible value = true := by
  obtain ⟨entry, _, hentry⟩ := List.mem_filterMap.mp (List.mem_of_getLast? h)
  cases entry with
  | ascii key text =>
    obtain ⟨⟨_, hvisible⟩, hvalue⟩ := Option.ite_none_right_eq_some.mp hentry
    exact Option.some.inj hvalue ▸ hvisible
  | binary key text => cases hentry

/-- The timeout is kept with and without tracing. -/
theorem lookup_tonicMetadata (entries : List KeyAndValue) (tracingEnabled : Bool) :
    (tonicMetadata tracingEnabled entries).lookup "grpc-timeout" =
      (timeoutValues entries).getLast? := by
  rw [tonicMetadata, lookup_collect, List.filter_filterMap, List.map_filterMap, timeoutValues]
  congr 2
  funext entry
  cases entry with
  | binary key value => rfl
  | ascii key value =>
    have htrace : isTraceHeader "grpc-timeout" = false := by decide
    by_cases hkey : key = "grpc-timeout"
    · subst hkey
      by_cases hvisible : isVisible value = true <;>
        simp [tonicEntry, timeoutEntry, toStr, htrace, hvisible]
    · by_cases hvisible : isVisible value = true <;>
        by_cases hkept : (!tracingEnabled && isTraceHeader key) = true <;>
          simp [tonicEntry, timeoutEntry, toStr, hkey, hvisible, hkept]

/-- The code as one choice, on the timeout that the request asks for. -/
theorem fromTonicRequest_cases (entries : List KeyAndValue) (tracingEnabled : Bool)
    (now : Instant) :
    ∃ context : MessageContext, context.deadline = none ∧
      ((∃ d : Duration, (∃ nanos, AsksFor entries nanos) ∧
        (∀ nanos, AsksFor entries nanos → d.asNanos = saturated nanos) ∧
        MessageContext.fromTonicRequestWithTracing entries tracingEnabled now =
          match now.checkedAdd d with
          | none => .error .addOverflow
          | some deadline => .ok { context with deadline := some deadline }) ∨
      ((∀ nanos, ¬ AsksFor entries nanos) ∧
        MessageContext.fromTonicRequestWithTracing entries tracingEnabled now = .ok context)) := by
  refine ⟨if tracingEnabled then
      MessageContext.new.withMetadata (tonicMetadata tracingEnabled entries)
    else MessageContext.new.withMetadataUntraced (tonicMetadata tracingEnabled entries),
    by cases tracingEnabled <;> rfl, ?_⟩
  rw [MessageContext.fromTonicRequestWithTracing]
  simp only [lookup_tonicMetadata]
  cases hvalue : (timeoutValues entries).getLast? with
  | none =>
    refine .inr ⟨?_, rfl⟩
    intro nanos ⟨value, hlast, _⟩
    exact absurd (hvalue ▸ hlast) (by simp)
  | some value =>
    have hasks : ∀ nanos, AsksFor entries nanos ↔ IsTimeout value nanos := by
      intro nanos
      simp [AsksFor, hvalue]
    obtain ⟨timeout, hparse, hsome, hnone⟩ := parseTimeout_visible (timeoutValues_visible hvalue)
    by_cases htimeout : ∃ nanos, IsTimeout value nanos
    · obtain ⟨nanos, hnanos⟩ := htimeout
      obtain ⟨d, rfl, -⟩ := hsome nanos hnanos
      refine .inl ⟨d, ⟨nanos, (hasks nanos).mpr hnanos⟩, ?_, ?_⟩
      · intro nanos' hasked
        obtain ⟨d', hd', hsaturated⟩ := hsome nanos' ((hasks nanos').mp hasked)
        rw [Option.some.inj hd', hsaturated]
      · simp only [hparse, bind, Except.bind]
        cases now.checkedAdd d <;> rfl
    · obtain rfl := hnone (not_exists.mp htimeout)
      refine .inr ⟨fun nanos h => htimeout ⟨nanos, (hasks nanos).mp h⟩, ?_⟩
      simp only [hparse]
      rfl

/-- **gRPC deadlines.** A request gets a context if and only if the clock has an instant for the end
of the timeout that it asks for. The unit is never cut off inside a character; a timeout that fits
gives the deadline that is exactly so much later, and no timeout gives no deadline. -/
theorem deadline_returns_iff (entries : List KeyAndValue) (tracingEnabled : Bool) (now : Instant) :
    ((∃ context, MessageContext.fromTonicRequestWithTracing entries tracingEnabled now =
        .ok context) ↔
      ∀ nanos, AsksFor entries nanos → now.asNanos + saturated nanos < Instant.limit) ∧
    MessageContext.fromTonicRequestWithTracing entries tracingEnabled now ≠ .error .charBoundary ∧
    (∀ nanos, AsksFor entries nanos → now.asNanos + nanos < Instant.limit →
      ∃ context deadline,
        MessageContext.fromTonicRequestWithTracing entries tracingEnabled now = .ok context ∧
        context.deadline = some deadline ∧ deadline.asNanos = now.asNanos + nanos) ∧
    ((∀ nanos, ¬ AsksFor entries nanos) → ∃ context,
      MessageContext.fromTonicRequestWithTracing entries tracingEnabled now = .ok context ∧
      context.deadline = none) := by
  obtain ⟨context, hdeadline, ⟨d, ⟨nanos, hasked⟩, hsaturated, heq⟩ | ⟨hnone, heq⟩⟩ :=
    fromTonicRequest_cases entries tracingEnabled now
  · have hfits := Instant.checkedAdd_isSome_iff (t := now) (d := d)
    rw [heq]
    refine ⟨?_, ?_, ?_, fun h => absurd hasked (h nanos)⟩
    · constructor
      · intro ⟨_, hok⟩ nanos' hasked'
        rw [← hsaturated nanos' hasked', ← hfits]
        cases hadd : now.checkedAdd d with
        | none => simp [hadd] at hok
        | some deadline => rfl
      · intro hall
        have hlt := hall nanos hasked
        rw [← hsaturated nanos hasked, ← hfits] at hlt
        obtain ⟨deadline, hadd⟩ := Option.isSome_iff_exists.mp hlt
        exact ⟨_, by rw [hadd]⟩
    · cases now.checkedAdd d <;> simp
    · intro nanos' hasked' hlt
      have hexact : d.asNanos = nanos' := (hsaturated nanos' hasked').trans (saturated_fits hlt)
      obtain ⟨deadline, hadd⟩ := Option.isSome_iff_exists.mp (hfits.mpr (hexact ▸ hlt))
      refine ⟨_, deadline, by rw [hadd], rfl, ?_⟩
      rw [Instant.asNanos_of_checkedAdd hadd, hexact]
  · rw [heq]
    exact ⟨⟨fun _ nanos h => absurd h (hnone nanos), fun _ => ⟨context, rfl⟩⟩, by simp,
      fun nanos h => absurd h (hnone nanos), fun _ => ⟨context, rfl, hdeadline⟩⟩

/-- `grpc-timeout: 18446744073709551615S` -/
def hugeTimeout : List KeyAndValue :=
  [.ascii "grpc-timeout"
    [49, 56, 52, 52, 54, 55, 52, 52, 48, 55, 51, 55, 48, 57, 53, 53, 49, 54, 49, 53, 83]]

/-- A remote timeout of the most seconds that a `u64` has is beyond the clock. -/
theorem deadline_panics :
    ¬ ∃ tracingEnabled context,
      MessageContext.fromTonicRequestWithTracing hugeTimeout tracingEnabled Instant.zero =
        .ok context := by
  have hpanic : ∀ tracingEnabled,
      (MessageContext.fromTonicRequestWithTracing hugeTimeout tracingEnabled
        Instant.zero).toOption.isNone = true := by
    decide +kernel
  intro h
  obtain ⟨tracingEnabled, context, hok⟩ := h
  have hnone := hpanic tracingEnabled
  rw [hok] at hnone
  cases hnone

end ServiceLib
