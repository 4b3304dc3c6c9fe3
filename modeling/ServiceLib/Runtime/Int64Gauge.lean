import ServiceLib.Tally
import ServiceLib.Transition

/-!
# Gauges with an up-down counter

Follows `Int64Gauge` in `src/runtime/environment/metrics.rs`. Clones of a gauge share its value and
its counter. An operation changes the value by one atomic step and then sends the difference to the
counter by another, so the differences of concurrent operations arrive in any order.

**Theorem (`sum_sent_eq_value`).** When no operation is in progress the differences add up to the
value, as long as no `set` panics: in a build with overflow checks `value - previous` does if it
does not fit, and the value has been swapped by then (`overflow_loses_delta`).

The idea: the sent and the unsent differences add up to the value at every moment
(`sum_sent_add_unsent`).
-/

namespace ServiceLib

abbrev I64 := BitVec 64

/-- What the clones of a gauge share, and whether the build checks for overflow. -/
structure Int64Gauge where
  otel : Bool
  enabled : Bool
  checks : Bool

namespace Int64Gauge

/-! ## Operations -/

inductive Operation
  | inc
  | dec
  | add (value : I64)
  | set (value : I64)

/-- What an operation does next. -/
inductive Pc
  | adding (value : I64)
  | swapping (value : I64)
  | sending (delta : I64)
  | returned
  /-- The difference did not fit. -/
  | panicked (delta : I64)
  deriving DecidableEq

def Operation.start : Operation → Pc
  | .inc => .adding 1
  | .dec => .adding (-1)
  | .add value => .adding value
  | .set value => .swapping value

/-- The atomic value, what the counter got, and every operation so far. -/
structure State where
  value : I64
  sent : List I64
  calls : List Pc

def State.init : State := ⟨0, [], []⟩

inductive Action
  | call (op : Operation)
  /-- `fetch_add` or `swap`. -/
  | update (c : ℕ)
  | send (c : ℕ)

variable (gauge : Int64Gauge)

/-- After `fetch_add`. -/
def added (value : I64) : Pc := if gauge.otel then .sending value else .returned

/-- After `swap`: `value - previous`. -/
def swapped (value previous : I64) : Pc :=
  if gauge.otel then
    if gauge.checks && value.ssubOverflow previous then .panicked (value - previous)
    else .sending (value - previous)
  else .returned

def step (s : State) : Action → Option State
  | .call op =>
    some { s with calls := s.calls ++ [if gauge.enabled then op.start else .returned] }
  | .update c =>
    match s.calls[c]? with
    | some (.adding value) =>
      some { s with value := s.value + value, calls := s.calls.set c (gauge.added value) }
    | some (.swapping value) =>
      some { s with value := value, calls := s.calls.set c (gauge.swapped value s.value) }
    | _ => none
  | .send c =>
    match s.calls[c]? with
    | some (.sending delta) =>
      some { s with sent := s.sent ++ [delta], calls := s.calls.set c .returned }
    | _ => none

def system : System State Action where
  init := .init
  step := gauge.step

/-! ## Unsent differences -/

/-- The change of the value by an operation that the counter has not got. -/
def Pc.unsent : Pc → I64
  | .sending delta => delta
  | .panicked delta => delta
  | _ => 0

def State.unsent (s : State) : I64 := (s.calls.map Pc.unsent).sum

theorem Operation.unsent_start (op : Operation) : op.start.unsent = 0 := by
  cases op <;> rfl

variable {gauge}

theorem unsent_added (hotel : gauge.otel = true) (value : I64) :
    (gauge.added value).unsent = value := by
  rw [added, if_pos hotel]
  rfl

theorem unsent_swapped (hotel : gauge.otel = true) (value previous : I64) :
    (gauge.swapped value previous).unsent = value - previous := by
  rw [swapped, if_pos hotel]
  split <;> rfl

/-- What the counter got and what it has yet to get make up the value. -/
def Balanced (s : State) : Prop := s.sent.sum + s.unsent = s.value

theorem balanced_step (hotel : gauge.otel = true) {s t : State} {a : Action} (h : Balanced s)
    (hs : gauge.step s a = some t) : Balanced t := by
  unfold Balanced State.unsent at *
  cases a with
  | call op =>
    cases hs
    have hstart : (if gauge.enabled then op.start else .returned).unsent = 0 := by
      split
      · exact op.unsent_start
      · rfl
    rw [sum_map_concat, hstart, add_zero]
    exact h
  | update c =>
    simp only [step] at hs
    split at hs
    case h_1 value hcall =>
      cases hs
      show s.sent.sum + _ = s.value + value
      rw [sum_map_set Pc.unsent hcall, unsent_added hotel, ← h]
      show _ + (_ - 0 + value) = _
      ring
    case h_2 value hcall =>
      cases hs
      show s.sent.sum + _ = value
      rw [sum_map_set Pc.unsent hcall, unsent_swapped hotel, ← h]
      show _ + (_ - 0 + _) = _
      ring
    case h_3 => cases hs
  | send c =>
    simp only [step] at hs
    split at hs
    case h_1 delta hcall =>
      cases hs
      show (s.sent ++ [delta]).sum + _ = s.value
      rw [sum_map_set Pc.unsent hcall, List.sum_append, List.sum_singleton, ← h]
      show _ + delta + (_ - delta + 0) = _
      ring
    case h_2 => cases hs

/-- **Sent and unsent differences** add up to the value at every moment. -/
theorem sum_sent_add_unsent (hotel : gauge.otel = true) {s : State}
    (h : gauge.system.Reachable s) : s.sent.sum + s.unsent = s.value :=
  System.Reachable.invariant (S := gauge.system) (I := Balanced) rfl
    (fun _ _ _ hi hs => balanced_step hotel hi hs) h

/-! ## Quiescence -/

def Pc.ended : Pc → Bool
  | .returned => true
  | .panicked _ => true
  | _ => false

/-- No operation is in progress. -/
def State.idle (s : State) : Bool := s.calls.all Pc.ended

variable (gauge) in
/-- If the step is a swap, then the difference fits or the build does not check. -/
def fits (s : State) : Action → Bool
  | .update c =>
    match s.calls[c]? with
    | some (.swapping value) => !(gauge.checks && value.ssubOverflow s.value)
    | _ => true
  | _ => true

def Pc.panics : Pc → Bool
  | .panicked _ => true
  | _ => false

/-- No operation has panicked. -/
def Calm (s : State) : Prop := ∀ pc ∈ s.calls, pc.panics = false

theorem calm_step {s t : State} {a : Action} (h : Calm s) (hfits : gauge.fits s a = true)
    (hs : gauge.step s a = some t) : Calm t := by
  cases a with
  | call op =>
    cases hs
    apply forall_mem_concat h
    split
    · cases op <;> rfl
    · rfl
  | update c =>
    simp only [step] at hs
    split at hs
    case h_1 value hcall =>
      cases hs
      apply forall_mem_set h
      unfold added
      split <;> rfl
    case h_2 value hcall =>
      cases hs
      apply forall_mem_set h
      simp only [fits, hcall, Bool.not_eq_true'] at hfits
      unfold swapped
      rw [hfits]
      split <;> rfl
    case h_3 => cases hs
  | send c =>
    simp only [step] at hs
    split at hs
    case h_1 delta hcall =>
      cases hs
      exact forall_mem_set h rfl c
    case h_2 => cases hs

theorem unsent_of_ended {calls : List Pc} (hended : calls.all Pc.ended = true)
    (hcalm : ∀ pc ∈ calls, pc.panics = false) : (calls.map Pc.unsent).sum = 0 := by
  apply sum_map_eq_zero
  intro pc hpc
  have hend := List.all_eq_true.mp hended pc hpc
  have hpanics := hcalm pc hpc
  cases pc with
  | returned => rfl
  | panicked => exact absurd hpanics.symm Bool.false_ne_true
  | adding | swapping | sending => exact absurd hend Bool.false_ne_true

/-- **The differences add up.** -/
theorem sum_sent_eq_value (hotel : gauge.otel = true) {s : State}
    (h : gauge.system.Reach (fun s a => gauge.fits s a = true) s) (hidle : s.idle = true) :
    s.sent.sum = s.value := by
  have hcalm : Calm s :=
    h.invariant (I := Calm) (fun _ hmem => absurd hmem List.not_mem_nil)
      (fun _ _ _ hi hfits hs => calm_step hi hfits hs)
  have hunsent : s.unsent = 0 := unsent_of_ended hidle hcalm
  have hsum := sum_sent_add_unsent hotel h.reachable
  rw [hunsent, add_zero] at hsum
  exact hsum

/-- A gauge in a build with overflow checks. -/
def checkedGauge : Int64Gauge := ⟨true, true, true⟩

/-- The difference of `set` is sent after that of `add`, which came later. -/
def overtaking : List Action :=
  [.call (.set 5), .update 0, .call (.add 3), .call .dec, .update 1, .send 1, .update 2, .send 0,
    .send 2]

theorem sum_sent_eq_value_overtaking :
    ∃ s, checkedGauge.system.Reachable s ∧ s.sent = [3, 5, -1] ∧ s.sent.sum = s.value := by
  have hrun : ((checkedGauge.system.restrict fun s a => checkedGauge.fits s a = true).run .init
      overtaking).map (fun s => decide (s.idle = true ∧ s.sent = [3, 5, -1])) = some true := by
    decide +kernel
  obtain ⟨s, hs, hfacts⟩ := Option.map_eq_some_iff.mp hrun
  obtain ⟨hidle, hsent⟩ := of_decide_eq_true hfacts
  have h := (System.Reachable.run .init hs).reach
  exact ⟨s, h.reachable, hsent, sum_sent_eq_value rfl h hidle⟩

/-- The value goes from the largest number to -2. -/
def overflowing : List Action :=
  [.call (.set (BitVec.intMax 64)), .update 0, .send 0, .call (.set (-2)), .update 1]

/-- **A `set` that panics** leaves its value and sends nothing. -/
theorem overflow_loses_delta :
    ∃ s, checkedGauge.system.Reachable s ∧ s.idle = true ∧ s.value = -2 ∧
      s.sent.sum = BitVec.intMax 64 := by
  have hrun : (checkedGauge.system.run .init overflowing).map (fun s =>
      decide (s.idle = true ∧ s.value = -2 ∧ s.sent.sum = BitVec.intMax 64)) = some true := by
    decide +kernel
  obtain ⟨s, hs, hfacts⟩ := Option.map_eq_some_iff.mp hrun
  exact ⟨s, System.Reachable.run .init hs, of_decide_eq_true hfacts⟩

end Int64Gauge

end ServiceLib
