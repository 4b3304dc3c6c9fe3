import ServiceLib.Clock
import ServiceLib.Decoder
import ServiceLib.HashMap

/-!
# Headers, metadata and sampling

Follows `MessageContext` in `src/runtime/common.rs`, as far as transport metadata and the sampling
decision go. A request is sampled if it has a non-empty `x-trace` header or a `traceparent` with the
sampled flag. Two pieces of code decide this for one HTTP request: the middleware reads the headers
directly, and the source reads the metadata that it has collected from them.

**Theorem (`sampling_agrees`).** The two decide alike if and only if both read each of the two
headers alike, or each finds a reason to sample in one of them. One reads the first value of a
header; the other one its last value of visible ASCII.

The idea: collecting pairs into a map keeps the last value of a key, and `HeaderMap::get` answers
with the first.
-/

namespace ServiceLib

/-! ## Header maps -/

/-- `http::HeaderMap`: the pairs in the order of its iteration, where the values of one name stand
in the order in which they were appended. Names are lower case. -/
abbrev HeaderMap := List (String × Bytes)

namespace HeaderMap

/-- The values of a name. -/
def values (headers : HeaderMap) (name : String) : List Bytes :=
  (headers.filter (·.1 = name)).map (·.2)

/-- `HeaderMap::get`: the first value of the name. -/
def get (headers : HeaderMap) (name : String) : Option Bytes :=
  (headers.find? (·.1 = name)).map (·.2)

theorem get_eq_head? (headers : HeaderMap) (name : String) :
    headers.get name = (headers.values name).head? := by
  rw [get, values, List.head?_map, List.head?_filter]

end HeaderMap

/-- Visible ASCII, as `HeaderValue::to_str` sees it. -/
def isVisibleAscii (b : UInt8) : Bool := (32 ≤ b && b < 127) || b == 9

def isVisible (value : Bytes) : Bool := value.all isVisibleAscii

/-- `HeaderValue::to_str`. -/
def toStr (value : Bytes) : Option Bytes := if isVisible value then some value else none

/-- `collect::<HashMap<String, String>>()`; a string is its bytes. -/
def collect (pairs : List (String × Bytes)) : HashMap String Bytes :=
  pairs.foldl (fun m pair => m.insert pair.1 pair.2) ∅

/-- The last value of a key is kept. -/
theorem lookup_collect (pairs : List (String × Bytes)) (key : String) :
    (collect pairs).lookup key = (((pairs.filter (·.1 = key)).map (·.2)).getLast?) := by
  induction pairs using List.reverseRecOn with
  | nil => rfl
  | append_singleton pairs pair ih =>
    have hstep : collect (pairs ++ [pair]) = (collect pairs).insert pair.1 pair.2 := by
      rw [collect, List.foldl_append]
      rfl
    rw [hstep, List.filter_append, List.map_append]
    by_cases hkey : pair.1 = key
    · subst hkey
      simp [Finmap.lookup_insert]
    · rw [Finmap.lookup_insert_of_ne _ (Ne.symm hkey), ih]
      simp [hkey]

/-- What the HTTP source keeps of the headers: the values that are visible ASCII. -/
def httpMetadata (headers : HeaderMap) : HashMap String Bytes :=
  collect (headers.filterMap fun pair => (toStr pair.2).map fun value => (pair.1, value))

theorem values_toStr (headers : HeaderMap) (name : String) :
    HeaderMap.values (headers.filterMap fun pair => (toStr pair.2).map fun value =>
      (pair.1, value)) name = (headers.values name).filter isVisible := by
  have hkept : (fun pair : String × Bytes => (toStr pair.2).map fun value => (pair.1, value)) =
      Option.guard fun pair => isVisible pair.2 := by
    funext pair
    by_cases hvisible : isVisible pair.2 = true <;> simp [toStr, Option.guard, hvisible]
  rw [hkept, List.filterMap_eq_filter, HeaderMap.values, HeaderMap.values, List.filter_map,
    List.filter_comm]
  rfl

theorem lookup_httpMetadata (headers : HeaderMap) (name : String) :
    (httpMetadata headers).lookup name = ((headers.values name).filter isVisible).getLast? := by
  rw [httpMetadata, lookup_collect, ← values_toStr]
  rfl

/-! ## The sampled flag -/

def isAsciiHexdigit (b : UInt8) : Bool :=
  (48 ≤ b && b ≤ 57) || (65 ≤ b && b ≤ 70) || (97 ≤ b && b ≤ 102)

/-- The value of a hexadecimal digit. -/
def hexValue (b : UInt8) : UInt8 :=
  if b ≤ 57 then b - 48 else if b ≤ 70 then b - 55 else b - 87

/-- `u8::from_str_radix(digits, 16)`, of two digits. -/
def fromStrRadix16 : Bytes → Option UInt8
  | [high, low] =>
    if isAsciiHexdigit high && isAsciiHexdigit low then some (hexValue high * 16 + hexValue low)
    else none
  | _ => none

/-- `&value[from..to]` -/
def slice (value : Bytes) (start stop : ℕ) : Bytes := (value.take stop).drop start

def traceparentFlags (value : Bytes) : Option UInt8 :=
  if value.length ≠ 55 ∨ value[2]? ≠ some 45 ∨ value[35]? ≠ some 45 ∨ value[52]? ≠ some 45 then none
  else if !value.zipIdx.all fun pair =>
      pair.2 == 2 || pair.2 == 35 || pair.2 == 52 || isAsciiHexdigit pair.1 then none
  else if slice value 0 2 = [102, 102] ∨ (slice value 3 35).all (· == 48) ∨
      (slice value 36 52).all (· == 48) then none
  else fromStrRadix16 (slice value 53 55)

def traceparentIsSampled (value : Bytes) : Bool :=
  (traceparentFlags value).any fun flags => flags &&& 1 != 0

/-! ## The context -/

/-- `MessageContext`, with the fields that the transports set here. -/
structure MessageContext where
  metadata : HashMap String Bytes
  samplingEnabled : Bool
  deadline : Option Instant

namespace MessageContext

def new : MessageContext := ⟨∅, false, none⟩

def withMetadata (context : MessageContext) (metadata : HashMap String Bytes) : MessageContext :=
  let explicitSampling := (metadata.lookup "x-trace").any fun value => !value.isEmpty
  let sampledParent := (metadata.lookup "traceparent").any traceparentIsSampled
  { context with
    samplingEnabled := explicitSampling || sampledParent
    metadata := metadata }

def withMetadataUntraced (context : MessageContext) (metadata : HashMap String Bytes) :
    MessageContext :=
  { context with metadata := metadata }

/-- The parent of the server span; `extract` is that of the propagator. -/
def tracingParentFromHttpHeaders {Parent : Type} (extract : HeaderMap → Parent)
    (headers : HeaderMap) : Option Parent :=
  let explicitSampling := (headers.get "x-trace").any fun value => !value.isEmpty
  let sampledParent := ((headers.get "traceparent").bind toStr).any traceparentIsSampled
  if !explicitSampling && !sampledParent then none else some (extract headers)

end MessageContext

/-! ## The two decisions -/

/-- The first value of a header passes a test. -/
def firstPasses (headers : HeaderMap) (name : String) (test : Bytes → Bool) : Prop :=
  ∃ value, (headers.values name).head? = some value ∧ test value = true

/-- The last value of a header that is visible ASCII passes a test. -/
def lastPasses (headers : HeaderMap) (name : String) (test : Bytes → Bool) : Prop :=
  ∃ value, ((headers.values name).filter isVisible).getLast? = some value ∧ test value = true

/-- An `x-trace` value that asks for sampling. -/
def isExplicit (value : Bytes) : Bool := !value.isEmpty

/-- A `traceparent` value that asks for sampling. -/
def isSampledParent (value : Bytes) : Bool := isVisible value && traceparentIsSampled value

/-- The middleware makes a server span. -/
def hasServerSpan {Parent : Type} (extract : HeaderMap → Parent) (headers : HeaderMap) : Prop :=
  (MessageContext.tracingParentFromHttpHeaders extract headers).isSome = true

/-- The source makes an endpoint span. -/
def hasEndpointSpan (context : MessageContext) (headers : HeaderMap) : Prop :=
  (context.withMetadata (httpMetadata headers)).samplingEnabled = true

theorem bind_toStr_any (value : Option Bytes) :
    (value.bind toStr).any traceparentIsSampled = value.any isSampledParent := by
  cases value with
  | none => rfl
  | some value =>
    by_cases hvisible : isVisible value = true <;> simp [toStr, isSampledParent, hvisible]

theorem hasServerSpan_iff {Parent : Type} (extract : HeaderMap → Parent) (headers : HeaderMap) :
    hasServerSpan extract headers ↔
      firstPasses headers "x-trace" isExplicit ∨
        firstPasses headers "traceparent" isSampledParent := by
  have hread : hasServerSpan extract headers ↔
      (headers.get "x-trace").any isExplicit = true ∨
        (headers.get "traceparent").any isSampledParent = true := by
    rw [← bind_toStr_any, hasServerSpan, MessageContext.tracingParentFromHttpHeaders]
    show Option.isSome (if (!(headers.get "x-trace").any isExplicit && _) = true then _ else _) =
      true ↔ _
    cases (headers.get "x-trace").any isExplicit <;>
      cases ((headers.get "traceparent").bind toStr).any traceparentIsSampled <;> simp
  rw [hread, Option.any_eq_true, Option.any_eq_true, HeaderMap.get_eq_head?,
    HeaderMap.get_eq_head?]
  rfl

/-- Metadata has no other values than visible ones, so the test of the value may ask for it. -/
theorem lastPasses_traceparent (headers : HeaderMap) (name : String) :
    lastPasses headers name traceparentIsSampled ↔ lastPasses headers name isSampledParent := by
  have hvisible : ∀ value, ((headers.values name).filter isVisible).getLast? = some value →
      isVisible value = true := by
    intro value hlast
    exact (List.mem_filter.mp (List.mem_of_getLast? hlast)).2
  constructor
  · intro ⟨value, hlast, hsampled⟩
    exact ⟨value, hlast, by rw [isSampledParent, hvisible value hlast, hsampled]; rfl⟩
  · intro ⟨value, hlast, hsampled⟩
    exact ⟨value, hlast, (Bool.and_eq_true _ _ ▸ hsampled).2⟩

theorem hasEndpointSpan_iff (context : MessageContext) (headers : HeaderMap) :
    hasEndpointSpan context headers ↔
      lastPasses headers "x-trace" isExplicit ∨
        lastPasses headers "traceparent" isSampledParent := by
  rw [← lastPasses_traceparent, hasEndpointSpan, MessageContext.withMetadata,
    lookup_httpMetadata, lookup_httpMetadata, Bool.or_eq_true, Option.any_eq_true,
    Option.any_eq_true]
  rfl

/-- A header with one value at most, of visible ASCII, is read alike. -/
theorem firstPasses_iff_lastPasses {headers : HeaderMap} {name : String} {test : Bytes → Bool}
    (hone : (headers.values name).length ≤ 1)
    (hvisible : ∀ value ∈ headers.values name, test value = true → isVisible value = true) :
    firstPasses headers name test ↔ lastPasses headers name test := by
  rw [firstPasses, lastPasses]
  match hvalues : headers.values name, hone with
  | [], _ => simp
  | [value], _ =>
    by_cases h : isVisible value = true
    · simp [h]
    · have htest : test value ≠ true := by
        intro htest
        exact h (hvisible value (by rw [hvalues]; exact List.mem_singleton_self value) htest)
      simp [h, htest]

/-- **Sampling decisions.** The server span and the endpoint span of a request are both made or both
left out if and only if each of the two headers is read alike by the two, or either of them finds a
reason to sample in one of the headers. This is so if no header is repeated and `x-trace` is visible
ASCII. -/
theorem sampling_agrees {Parent : Type} (extract : HeaderMap → Parent) (context : MessageContext)
    (headers : HeaderMap) :
    ((hasServerSpan extract headers ↔ hasEndpointSpan context headers) ↔
      ((firstPasses headers "x-trace" isExplicit ↔ lastPasses headers "x-trace" isExplicit) ∧
        (firstPasses headers "traceparent" isSampledParent ↔
          lastPasses headers "traceparent" isSampledParent)) ∨
      ((firstPasses headers "x-trace" isExplicit ∨
          firstPasses headers "traceparent" isSampledParent) ∧
        (lastPasses headers "x-trace" isExplicit ∨
          lastPasses headers "traceparent" isSampledParent))) ∧
    ((headers.values "x-trace").length ≤ 1 → (headers.values "traceparent").length ≤ 1 →
      (∀ value ∈ headers.values "x-trace", isVisible value = true) →
      (hasServerSpan extract headers ↔ hasEndpointSpan context headers)) := by
  rw [hasServerSpan_iff, hasEndpointSpan_iff]
  constructor
  · tauto
  · intro htrace hparent hvisible
    have hparentVisible : ∀ value ∈ headers.values "traceparent",
        isSampledParent value = true → isVisible value = true := by
      intro value _ hsampled
      exact (Bool.and_eq_true _ _ ▸ hsampled).1
    rw [firstPasses_iff_lastPasses htrace fun value hmem _ => hvisible value hmem,
      firstPasses_iff_lastPasses hparent hparentVisible]

/-- A second, empty `x-trace` header makes a server span without an endpoint span; one value that is
not ASCII does so too. -/
theorem sampling_disagrees :
    ¬ (hasServerSpan (fun _ => ()) [("x-trace", [49]), ("x-trace", [])] ↔
      hasEndpointSpan .new [("x-trace", [49]), ("x-trace", [])]) ∧
    ¬ (hasServerSpan (fun _ => ()) [("x-trace", [233])] ↔
      hasEndpointSpan .new [("x-trace", [233])]) := by
  have hserver : ∀ headers ∈ [[("x-trace", [49]), ("x-trace", [])], [("x-trace", [233])]],
      hasServerSpan (fun _ => ()) headers := by
    unfold hasServerSpan
    decide
  have hendpoint : ∀ headers ∈ [[("x-trace", [49]), ("x-trace", [])], [("x-trace", [233])]],
      ¬ hasEndpointSpan .new headers := by
    unfold hasEndpointSpan
    decide
  exact ⟨fun h => hendpoint _ (by simp) (h.mp (hserver _ (by simp))),
    fun h => hendpoint _ (by simp) (h.mp (hserver _ (by simp)))⟩

end ServiceLib
