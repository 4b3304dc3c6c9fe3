import ServiceLib.BTreeMap
import ServiceLib.PrefixCode
import ServiceLib.Runtime.Int64Gauge
import ServiceLib.Transition

/-!
# The Prometheus exposition

Follows `src/runtime/environment/metrics.rs`: the registry, the registrations of `MetricsScope`,
what the instruments record in the registry, and `render_prometheus`.

**Theorem (`exposition_well_formed_iff`).** In every reachable registry each family has one header,
before its samples and right for all of them, and escaped label values can be told apart. The
buckets of the histograms count up and no two sample lines have the same name and labels exactly
when the registry is `Separate`: a family is checked against metrics of its own name only, so a
counter `x_count` is accepted beside a histogram `x` (`count_written_twice`).

The idea: which names and labels are written is a function of the registry (`Metric.series`), and
the suffixes `_bucket`, `_sum` and `_count` are told apart by their last letters. So two metrics can
meet in a line only in the ways `Separate` excludes.
-/

namespace ServiceLib

namespace Prometheus

/-! ## Names and labels -/

abbrev Labels := BTreeMap String String

/-- Maps are compared like their bindings. -/
def Labels.lex (labels : Labels) : List (String ×ₗ String) := labels.entries.map toLex

theorem Labels.lex_injective : Function.Injective Labels.lex := by
  intro labels labels' h
  cases labels
  cases labels'
  simpa [Labels.lex, List.map_inj_right] using h

instance : LinearOrder Labels := LinearOrder.lift' Labels.lex Labels.lex_injective

/-- `labels.extend(more)`. -/
def Labels.extend (labels more : Labels) : Labels :=
  more.entries.foldl (fun labels e => labels.insert e.1 e.2) labels

structure MetricKey where
  name : String
  labels : Labels

def MetricKey.lex (key : MetricKey) : String ×ₗ Labels := toLex (key.name, key.labels)

theorem MetricKey.lex_injective : Function.Injective MetricKey.lex := by
  intro key key' h
  cases key
  cases key'
  simpa [MetricKey.lex] using h

instance : LinearOrder MetricKey := LinearOrder.lift' MetricKey.lex MetricKey.lex_injective

def joinName (ns name : String) : String :=
  if ns.isEmpty then name
  else if name.isEmpty then ns
  else ns ++ "_" ++ name

/-- The namespace and the labels of a `MetricsScope`. -/
structure Scope where
  ns : String
  labels : Labels

/-- `MetricsScope::scope`. -/
def Scope.scope (self : Scope) (ns : String) (labels : Labels) : Scope :=
  ⟨joinName self.ns ns, Labels.extend self.labels labels⟩

def Scope.key (self : Scope) (name : String) (labels : Labels) : MetricKey :=
  ⟨joinName self.ns name, Labels.extend self.labels labels⟩

/-! ## Metrics -/

/-- What the registry and the text use of `f64` and of slices of it. -/
class F64 (F : Type) extends Add F, OfScientific F where
  toString : F → String
  lt : F → F → Bool
  partitionPoint : List F → (F → Bool) → ℕ
  partitionPoint_le : ∀ bounds p, partitionPoint bounds p ≤ bounds.length

structure HistogramValue (F : Type) where
  bounds : List F
  buckets : List ℕ
  count : ℕ
  sum : F

/-- The function of an observable gauge is called when the text is rendered. -/
inductive Metric (F : Type)
  | counter (help : String) (value : I64)
  | gauge (help : String) (value : I64)
  | histogram (help : String) (value : HistogramValue F)
  | observableGauge (help : String)

inductive MetricKind
  | counter
  | gauge
  | histogram
  | observableGauge
  deriving DecidableEq

inductive MetricsError
  | typeConflict (name : String)
  | descriptionConflict (name : String)
  deriving DecidableEq

variable {F : Type}

def Metric.kind : Metric F → MetricKind
  | .counter .. => .counter
  | .gauge .. => .gauge
  | .histogram .. => .histogram
  | .observableGauge .. => .observableGauge

def Metric.help : Metric F → String
  | .counter help _ => help
  | .gauge help _ => help
  | .histogram help _ => help
  | .observableGauge help => help

abbrev Registry (F : Type) := BTreeMap MetricKey (Metric F)

/-- `otel`: the engine has a meter. -/
structure Metrics (F : Type) where
  registry : Registry F
  otel : Bool
  noop : Bool

/-! ## Registration -/

/-- The first metric of the name decides. -/
def validateMetricFamily (registry : Registry F) (name : String) (expectedKind : MetricKind)
    (expectedHelp : String) : Except MetricsError Unit :=
  match registry.entries.find? fun e => e.1.name == name with
  | none => .ok ()
  | some (_, metric) =>
    if metric.kind ≠ expectedKind then .error (.typeConflict name)
    else if metric.help ≠ expectedHelp then .error (.descriptionConflict name)
    else .ok ()

/-- What the four registrations share: `metric` is inserted if the key is new. -/
def Metrics.register (self : Metrics F) (key : MetricKey) (metric : Metric F) :
    Except MetricsError (Metrics F) :=
  if self.noop then .ok self
  else do
    validateMetricFamily self.registry key.name metric.kind metric.help
    match self.registry.get key with
    | some found => if found.kind = metric.kind then .ok self else .error (.typeConflict key.name)
    | none => .ok { self with registry := self.registry.insert key metric }

def Metrics.counter (self : Metrics F) (scope : Scope) (name help : String) (labels : Labels) :
    Except MetricsError (Metrics F) :=
  self.register (scope.key name labels) (.counter help 0)

def Metrics.gauge (self : Metrics F) (scope : Scope) (name help : String) (labels : Labels) :
    Except MetricsError (Metrics F) :=
  self.register (scope.key name labels) (.gauge help 0)

def defaultDurationBounds [F64 F] : List F :=
  [0.00001, 0.00005, 0.0001, 0.0005, 0.001, 0.005, 0.01, 0.05, 0.1, 0.5, 1.0, 5.0, 10.0]

def HistogramValue.new [F64 F] (bounds : List F) : HistogramValue F :=
  ⟨bounds, List.replicate (bounds.length + 1) 0, 0, 0.0⟩

def Metrics.histogram [F64 F] (self : Metrics F) (scope : Scope) (name help : String)
    (labels : Labels) (bounds : Option (List F)) : Except MetricsError (Metrics F) :=
  self.register (scope.key name labels)
    (.histogram help (.new (bounds.getD defaultDurationBounds)))

def Metrics.observableFloat64Gauge (self : Metrics F) (scope : Scope) (name help : String)
    (labels : Labels) : Except MetricsError (Metrics F) :=
  self.register (scope.key name labels) (.observableGauge help)

/-! ## Recording -/

/-- `u64` arithmetic of a build without overflow checks. -/
def u64 (n : ℕ) : ℕ := n % 2 ^ 64

def HistogramValue.observe [F64 F] (h : HistogramValue F) (value : F) : HistogramValue F :=
  let index := F64.partitionPoint h.bounds fun bound => F64.lt bound value
  { h with
    count := u64 (h.count + 1)
    sum := h.sum + value
    buckets := h.buckets.modify index fun bucket => u64 (bucket + 1) }

/-- `Int64Counter::add`, `Int64Gauge::add`, `Int64Gauge::set` and `Float64Histogram::observe`. -/
inductive Record (F : Type)
  | add (value : I64)
  | set (value : I64)
  | observe (value : F)

/-- What an instrument does to the metric it was registered with. With a meter a counter leaves the
value alone. -/
def Metric.record [F64 F] (otel : Bool) : Metric F → Record F → Option (Metric F)
  | .counter help value, .add delta => some (.counter help (if otel then value else value + delta))
  | .gauge help value, .add delta => some (.gauge help (value + delta))
  | .gauge help _, .set value => some (.gauge help value)
  | .histogram help h, .observe value => some (.histogram help (h.observe value))
  | _, _ => none

inductive Action (F : Type)
  | counter (scope : Scope) (name help : String) (labels : Labels)
  | gauge (scope : Scope) (name help : String) (labels : Labels)
  | histogram (scope : Scope) (name help : String) (labels : Labels) (bounds : Option (List F))
  | observableFloat64Gauge (scope : Scope) (name help : String) (labels : Labels)
  /-- Through an instrument that was registered under `key`. -/
  | record (key : MetricKey) (what : Record F)

/-- A registration that fails leaves the registry as it was. -/
def Metrics.after (self : Metrics F) : Except MetricsError (Metrics F) → Metrics F
  | .ok m => m
  | .error _ => self

def Metrics.step [F64 F] (m : Metrics F) : Action F → Option (Metrics F)
  | .counter scope name help labels => some (m.after (m.counter scope name help labels))
  | .gauge scope name help labels => some (m.after (m.gauge scope name help labels))
  | .histogram scope name help labels bounds =>
    some (m.after (m.histogram scope name help labels bounds))
  | .observableFloat64Gauge scope name help labels =>
    some (m.after (m.observableFloat64Gauge scope name help labels))
  | .record key what =>
    ((m.registry.get key).bind fun metric => metric.record m.otel what).map fun metric =>
      { m with registry := m.registry.insert key metric }

def system [F64 F] (otel noop : Bool) : System (Metrics F) (Action F) where
  init := ⟨.new, otel, noop⟩
  step := Metrics.step

/-! ## Rendering -/

/-- The number of a sample. -/
inductive Value (F : Type)
  | int (value : I64)
  | uint (value : ℕ)
  | float (value : F)

def Value.toString [F64 F] : Value F → String
  | .int value => ToString.toString value.toInt
  | .uint value => ToString.toString value
  | .float value => F64.toString value

/-- A call of `write_header` or `write_sample`, and the metric it is made for. -/
inductive Line (F : Type)
  | header (key : MetricKey) (name help metricType : String)
  | sample (key : MetricKey) (name : String) (labels : Labels) (value : Value F)

def MetricKind.metricType : MetricKind → String
  | .counter => "counter"
  | .gauge => "gauge"
  | .histogram => "histogram"
  | .observableGauge => "gauge"

def HistogramValue.bound [F64 F] (h : HistogramValue F) (index : ℕ) : String :=
  match h.bounds[index]? with
  | some bound => F64.toString bound
  | none => "+Inf"

/-- The loop over the buckets. -/
def bucketSamples [F64 F] (key : MetricKey) (h : HistogramValue F) : ℕ → ℕ → List ℕ → List (Line F)
  | _, _, [] => []
  | index, cumulative, count :: buckets =>
    let cumulative := u64 (cumulative + count)
    .sample key (key.name ++ "_bucket") (key.labels.insert "le" (h.bound index))
      (.uint cumulative) :: bucketSamples key h (index + 1) cumulative buckets

/-- `observed` is what the functions of the observable gauges return. -/
def Metric.samples [F64 F] (observed : MetricKey → F) (key : MetricKey) : Metric F → List (Line F)
  | .counter _ value => [.sample key key.name key.labels (.int value)]
  | .gauge _ value => [.sample key key.name key.labels (.int value)]
  | .histogram _ h =>
    bucketSamples key h 0 0 h.buckets ++
      [.sample key (key.name ++ "_sum") key.labels (.float h.sum),
        .sample key (key.name ++ "_count") key.labels (.uint h.count)]
  | .observableGauge _ => [.sample key key.name key.labels (.float (observed key))]

def renderEntries [F64 F] (observed : MetricKey → F) :
    List String → List (MetricKey × Metric F) → List (Line F)
  | _, [] => []
  | renderedFamilies, (key, metric) :: entries =>
    (if key.name ∈ renderedFamilies then []
      else [.header key key.name metric.help metric.kind.metricType]) ++
    metric.samples observed key ++ renderEntries observed (key.name :: renderedFamilies) entries

def Metrics.lines [F64 F] (self : Metrics F) (observed : MetricKey → F) : List (Line F) :=
  if self.noop then [] else renderEntries observed [] self.registry.entries

/-- `str::replace` of a character. -/
def replace (s : String) (c : Char) (text : String) : String :=
  String.ofList (s.toList.flatMap fun d => if d = c then text.toList else [d])

def escapeHelp (help : String) : String :=
  replace (replace help '\\' "\\\\") '\n' "\\n"

def escapeValue (value : String) : String :=
  replace (replace (replace value '\\' "\\\\") '"' "\\\"") '\n' "\\n"

def labelsText (labels : Labels) : String :=
  if labels.entries.isEmpty then ""
  else "\x7b" ++ String.intercalate "," (labels.entries.map fun e =>
    e.1 ++ "=\"" ++ escapeValue e.2 ++ "\"") ++ "\x7d"

def Line.text [F64 F] : Line F → String
  | .header _ name help metricType =>
    "# HELP " ++ name ++ " " ++ escapeHelp help ++ "\n" ++
      "# TYPE " ++ name ++ " " ++ metricType ++ "\n"
  | .sample _ name labels value => name ++ labelsText labels ++ " " ++ value.toString ++ "\n"

def Metrics.renderPrometheus [F64 F] (self : Metrics F) (observed : MetricKey → F) : String :=
  String.join ((self.lines observed).map Line.text)

/-! ## Label values -/

/-- What the three replacements make of a character. -/
def escapeChar (c : Char) : List Char :=
  if c = '\\' then ['\\', '\\']
  else if c = '"' then ['\\', '"']
  else if c = '\n' then ['\\', 'n']
  else [c]

theorem toList_escapeValue (value : String) :
    (escapeValue value).toList = value.toList.flatMap escapeChar := by
  simp only [escapeValue, replace, String.toList_ofList, List.flatMap_assoc]
  congr 1
  funext c
  unfold escapeChar
  split_ifs <;> simp_all

theorem escapeChar_prefixCode : PrefixCode escapeChar where
  ne_nil c := by
    unfold escapeChar
    split_ifs <;> simp
  eq_of_prefix := by
    intro c d h
    unfold escapeChar at h
    split_ifs at h <;> simp_all

theorem escapeValue_injective : Function.Injective escapeValue := by
  intro value value' h
  apply String.toList_inj.1
  apply escapeChar_prefixCode.flatMap_injective
  rw [← toList_escapeValue, ← toList_escapeValue, h]

/-! ## Bucket counts -/

/-- What `observe` keeps: one bucket more than bounds, and `count` is their sum. -/
structure HistogramValue.Valid (h : HistogramValue F) : Prop where
  length : h.buckets.length = h.bounds.length + 1
  count : h.count = u64 h.buckets.sum
  lt : ∀ bucket ∈ h.buckets, bucket < 2 ^ 64

theorem u64_lt (n : ℕ) : u64 n < 2 ^ 64 := Nat.mod_lt n (by decide)

theorem u64_u64_add (m n : ℕ) : u64 (u64 m + n) = u64 (m + n) := Nat.mod_add_mod m (2 ^ 64) n

theorem u64_add_u64 (m n : ℕ) : u64 (m + u64 n) = u64 (m + n) := Nat.add_mod_mod m n (2 ^ 64)

/-- One more in one bucket is one more in all. -/
theorem u64_sum_modify {buckets : List ℕ} {index : ℕ} (h : index < buckets.length) :
    u64 (buckets.modify index fun bucket => u64 (bucket + 1)).sum = u64 (buckets.sum + 1) := by
  induction buckets generalizing index with
  | nil => simp at h
  | cons bucket buckets ih =>
    cases index with
    | zero =>
      rw [List.modify_zero_cons, List.sum_cons, List.sum_cons, u64_u64_add]
      congr 1
      omega
    | succ index =>
      rw [List.modify_succ_cons, List.sum_cons, List.sum_cons, ← u64_add_u64,
        ih (Nat.lt_of_succ_lt_succ h), u64_add_u64, Nat.add_assoc]

theorem HistogramValue.valid_new [F64 F] (bounds : List F) : (new bounds).Valid where
  length := by simp [new]
  count := by simp [new, u64]
  lt bucket hb := by
    rw [new, List.mem_replicate] at hb
    rw [hb.2]
    decide

theorem HistogramValue.Valid.observe [F64 F] {h : HistogramValue F} (hv : h.Valid) (value : F) :
    (h.observe value).Valid where
  length := by simpa [HistogramValue.observe] using hv.length
  count := by
    have hindex : F64.partitionPoint h.bounds (fun bound => F64.lt bound value)
        < h.buckets.length := by
      rw [hv.length]
      exact Nat.lt_succ_of_le (F64.partitionPoint_le _ _)
    simp only [HistogramValue.observe]
    rw [u64_sum_modify hindex, hv.count, u64_u64_add]
  lt bucket hb := by
    simp only [HistogramValue.observe] at hb
    obtain ⟨i, hi, rfl⟩ := List.mem_iff_getElem.1 hb
    rw [List.getElem_modify]
    split_ifs
    · exact u64_lt _
    · exact hv.lt _ (List.getElem_mem _)

/-! ## The registry -/

def Metric.Valid : Metric F → Prop
  | .histogram _ h => h.Valid
  | _ => True

/-- All metrics of a name have one kind and one help. -/
def Registry.Families (registry : Registry F) : Prop :=
  ∀ e ∈ registry.entries, ∀ e' ∈ registry.entries, e.1.name = e'.1.name →
    e.2.kind = e'.2.kind ∧ e.2.help = e'.2.help

structure Metrics.Ok (m : Metrics F) : Prop where
  families : Registry.Families m.registry
  valid : ∀ e ∈ m.registry.entries, e.2.Valid
  noop : m.noop = true → m.registry.entries = []

/-- What a step does: nothing, or it inserts a new metric of a family that agrees with it, or it
replaces a metric by one of its kind with its help. -/
inductive Metrics.Steps (m : Metrics F) : Metrics F → Prop
  | same : Steps m m
  | insert {key : MetricKey} {metric : Metric F} (hnoop : m.noop = false)
      (hfamily : validateMetricFamily m.registry key.name metric.kind metric.help = .ok ())
      (hnew : m.registry.get key = none) (hvalid : metric.Valid) :
      Steps m { m with registry := m.registry.insert key metric }
  | replace {key : MetricKey} {metric metric' : Metric F}
      (hget : m.registry.get key = some metric) (hkind : metric'.kind = metric.kind)
      (hhelp : metric'.help = metric.help) (hvalid : metric.Valid → metric'.Valid) :
      Steps m { m with registry := m.registry.insert key metric' }

theorem Metrics.steps_register (m : Metrics F) (key : MetricKey) {metric : Metric F}
    (hvalid : metric.Valid) : m.Steps (m.after (m.register key metric)) := by
  unfold register
  split_ifs with hnoop
  · exact .same
  cases hfamily : validateMetricFamily m.registry key.name metric.kind metric.help with
  | error e => exact .same
  | ok u =>
    show m.Steps (m.after (match m.registry.get key with
      | some found => if found.kind = metric.kind then .ok m else .error (.typeConflict key.name)
      | none => .ok { m with registry := m.registry.insert key metric }))
    cases hget : m.registry.get key with
    | none => exact .insert (by simpa using hnoop) hfamily hget hvalid
    | some found =>
      show m.Steps (m.after (if _ then _ else _))
      split_ifs
      · exact .same
      · exact .same

theorem Metric.record_eq_some [F64 F] {otel : Bool} {metric metric' : Metric F} {what : Record F}
    (h : metric.record otel what = some metric') :
    metric'.kind = metric.kind ∧ metric'.help = metric.help ∧ (metric.Valid → metric'.Valid) := by
  unfold record at h
  split at h <;> cases h
  · exact ⟨rfl, rfl, id⟩
  · exact ⟨rfl, rfl, id⟩
  · exact ⟨rfl, rfl, id⟩
  · exact ⟨rfl, rfl, fun hv => HistogramValue.Valid.observe hv _⟩

theorem Metrics.steps_of_step [F64 F] {m m' : Metrics F} {a : Action F} (h : m.step a = some m') :
    m.Steps m' := by
  cases a with
  | counter scope name help labels =>
    cases h
    exact m.steps_register _ trivial
  | gauge scope name help labels =>
    cases h
    exact m.steps_register _ trivial
  | histogram scope name help labels bounds =>
    cases h
    exact m.steps_register _ (HistogramValue.valid_new _)
  | observableFloat64Gauge scope name help labels =>
    cases h
    exact m.steps_register _ trivial
  | record key what =>
    simp only [step, Option.map_eq_some_iff, Option.bind_eq_some_iff] at h
    obtain ⟨metric', ⟨metric, hget, hrecord⟩, rfl⟩ := h
    obtain ⟨hkind, hhelp, hvalid⟩ := Metric.record_eq_some hrecord
    exact .replace hget hkind hhelp hvalid

/-- The check looks at one metric of the family, and the others are like it. -/
theorem Registry.Families.of_validate {registry : Registry F} (hf : Registry.Families registry)
    {name help : String} {kind : MetricKind}
    (h : validateMetricFamily registry name kind help = .ok ()) {e : MetricKey × Metric F}
    (he : e ∈ registry.entries) (hname : e.1.name = name) : e.2.kind = kind ∧ e.2.help = help := by
  unfold validateMetricFamily at h
  cases hfind : registry.entries.find? fun e => e.1.name == name with
  | none =>
    rw [List.find?_eq_none] at hfind
    exact absurd (hfind e he) (by simpa using hname)
  | some found =>
    have hfound : found.1.name = name := by simpa using List.find?_some hfind
    rw [hfind] at h
    have hmem := List.mem_of_find?_eq_some hfind
    obtain ⟨hkind, hhelp⟩ := hf e he found hmem (hname.trans hfound.symm)
    rw [hkind, hhelp]
    simp only at h
    split_ifs at h with h₁ h₂
    exact ⟨not_not.1 h₁, not_not.1 h₂⟩

theorem Registry.Families.insert {registry : Registry F} (hf : Registry.Families registry)
    {key : MetricKey} {metric : Metric F}
    (h : ∀ e ∈ registry.entries, e.1.name = key.name →
      e.2.kind = metric.kind ∧ e.2.help = metric.help) :
    Registry.Families (BTreeMap.insert registry key metric) := by
  intro e he e' he' hname
  rw [BTreeMap.mem_insert] at he he'
  rcases he with rfl | ⟨he, -⟩
  · rcases he' with rfl | ⟨he', -⟩
    · exact ⟨rfl, rfl⟩
    · obtain ⟨hkind, hhelp⟩ := h e' he' hname.symm
      exact ⟨hkind.symm, hhelp.symm⟩
  · rcases he' with rfl | ⟨he', -⟩
    · exact h e he hname
    · exact hf e he e' he' hname

theorem Metrics.Ok.steps {m m' : Metrics F} (hok : m.Ok) (h : m.Steps m') : m'.Ok := by
  cases h with
  | same => exact hok
  | insert hnoop hfamily hnew hvalid =>
    refine ⟨?_, ?_, fun hn => absurd hn (by simp [hnoop])⟩
    · exact hok.families.insert fun e he hname => hok.families.of_validate hfamily he hname
    · intro e he
      rcases BTreeMap.mem_insert.1 he with rfl | ⟨he, -⟩
      · exact hvalid
      · exact hok.valid e he
  | replace hget hkind hhelp hvalid =>
    have hmem := BTreeMap.get_eq_some_iff.1 hget
    refine ⟨?_, ?_, fun hn => by simp [hok.noop hn] at hmem⟩
    · apply hok.families.insert
      intro e he hname
      rw [hkind, hhelp]
      exact hok.families e he _ hmem hname
    · intro e he
      rcases BTreeMap.mem_insert.1 he with rfl | ⟨he, -⟩
      · exact hvalid (hok.valid _ hmem)
      · exact hok.valid e he

theorem ok_reachable [F64 F] {otel noop : Bool} {m : Metrics F}
    (h : (system otel noop).Reachable m) : m.Ok := by
  apply h.invariant (I := Metrics.Ok)
  · exact ⟨fun e he => absurd he List.not_mem_nil, fun e he => absurd he List.not_mem_nil,
      fun _ => rfl⟩
  · intro m a m' hok hstep
    exact hok.steps (Metrics.steps_of_step hstep)

/-! ## Headers -/

def Line.key : Line F → MetricKey
  | .header key _ _ _ => key
  | .sample key _ _ _ => key

def Line.isHeaderOf (name : String) : Line F → Prop
  | .header _ name' _ _ => name' = name
  | .sample .. => False

variable [F64 F] {observed : MetricKey → F}

theorem mem_bucketSamples {key : MetricKey} {h : HistogramValue F} {l : Line F}
    {index cumulative : ℕ} {buckets : List ℕ}
    (hl : l ∈ bucketSamples key h index cumulative buckets) :
    ∃ labels value, l = .sample key (key.name ++ "_bucket") labels value := by
  induction buckets generalizing index cumulative with
  | nil => simp [bucketSamples] at hl
  | cons bucket buckets ih =>
    rw [bucketSamples, List.mem_cons] at hl
    rcases hl with rfl | hl
    · exact ⟨_, _, rfl⟩
    · exact ih hl

theorem Metric.mem_samples {key : MetricKey} {metric : Metric F} {l : Line F}
    (hl : l ∈ metric.samples observed key) :
    ∃ name labels value, l = .sample key name labels value := by
  cases metric with
  | histogram help h =>
    rw [samples, List.mem_append] at hl
    rcases hl with hl | hl
    · obtain ⟨labels, value, rfl⟩ := mem_bucketSamples hl
      exact ⟨_, _, _, rfl⟩
    · simp only [List.mem_cons, List.not_mem_nil, or_false] at hl
      rcases hl with rfl | rfl
      · exact ⟨_, _, _, rfl⟩
      · exact ⟨_, _, _, rfl⟩
  | counter help value =>
    rw [samples, List.mem_singleton] at hl
    exact ⟨_, _, _, hl⟩
  | gauge help value =>
    rw [samples, List.mem_singleton] at hl
    exact ⟨_, _, _, hl⟩
  | observableGauge help =>
    rw [samples, List.mem_singleton] at hl
    exact ⟨_, _, _, hl⟩

/-- A family that is rendered gets no further header. -/
theorem not_isHeaderOf_renderEntries {entries : List (MetricKey × Metric F)}
    {rendered : List String} {name : String} (h : name ∈ rendered) {l : Line F}
    (hl : l ∈ renderEntries observed rendered entries) : ¬ l.isHeaderOf name := by
  induction entries generalizing rendered with
  | nil => simp [renderEntries] at hl
  | cons e entries ih =>
    obtain ⟨key, metric⟩ := e
    rw [renderEntries, List.mem_append, List.mem_append] at hl
    rcases hl with (hl | hl) | hl
    · split_ifs at hl with hin
      · simp at hl
      · rw [List.mem_singleton] at hl
        subst hl
        intro heq
        have hname : key.name = name := heq
        rw [hname] at hin
        exact hin h
    · obtain ⟨_, _, _, rfl⟩ := Metric.mem_samples hl
      exact id
    · exact ih (List.mem_cons_of_mem _ h) hl

/-- Up to the header of a family nothing of the family is written. -/
theorem exists_header (observed : MetricKey → F) {entries : List (MetricKey × Metric F)}
    {rendered : List String} {e : MetricKey × Metric F} (he : e ∈ entries) (hnew : e.1.name ∉ rendered) :
    ∃ e' ∈ entries, e'.1.name = e.1.name ∧ ∃ before after,
      renderEntries observed rendered entries =
        before ++ .header e'.1 e.1.name e'.2.help e'.2.kind.metricType :: after ∧
      (∀ l ∈ before, l.key.name ≠ e.1.name) ∧ ∀ l ∈ after, ¬ l.isHeaderOf e.1.name := by
  induction entries generalizing rendered with
  | nil => simp at he
  | cons e₀ entries ih =>
    obtain ⟨key, metric⟩ := e₀
    by_cases hname : key.name = e.1.name
    · refine ⟨(key, metric), List.mem_cons_self, hname, [],
        metric.samples observed key ++ renderEntries observed (key.name :: rendered) entries,
        ?_, by simp, ?_⟩
      · rw [renderEntries, if_neg (hname ▸ hnew), hname]
        rfl
      · intro l hl
        rw [List.mem_append] at hl
        rcases hl with hl | hl
        · obtain ⟨_, _, _, rfl⟩ := Metric.mem_samples hl
          exact id
        · exact not_isHeaderOf_renderEntries (by simp [hname]) hl
    · have hin : e ∈ entries := by
        rcases List.mem_cons.1 he with rfl | he
        · exact absurd rfl hname
        · exact he
      have hnew' : e.1.name ∉ key.name :: rendered := by
        rw [List.mem_cons, not_or]
        exact ⟨fun h => hname h.symm, hnew⟩
      obtain ⟨e', he', hname', before, after, heq, hbefore, hafter⟩ := ih hin hnew'
      refine ⟨e', List.mem_cons_of_mem _ he', hname',
        (if key.name ∈ rendered then []
          else [.header key key.name metric.help metric.kind.metricType]) ++
        metric.samples observed key ++ before, after, ?_, ?_, hafter⟩
      · rw [renderEntries, heq, List.append_assoc _ before]
      · intro l hl
        rw [List.mem_append, List.mem_append] at hl
        rcases hl with (hl | hl) | hl
        · split_ifs at hl
          · simp at hl
          · rw [List.mem_singleton] at hl
            subst hl
            exact hname
        · obtain ⟨_, _, _, rfl⟩ := Metric.mem_samples hl
          exact hname
        · exact hbefore l hl

/-! ## Cumulative buckets -/

/-- The values of the loop over the buckets. -/
def running : ℕ → List ℕ → List ℕ
  | _, [] => []
  | cumulative, count :: buckets =>
    u64 (cumulative + count) :: running (u64 (cumulative + count)) buckets

theorem length_running (cumulative : ℕ) (buckets : List ℕ) :
    (running cumulative buckets).length = buckets.length := by
  induction buckets generalizing cumulative with
  | nil => rfl
  | cons bucket buckets ih => rw [running, List.length_cons, ih, List.length_cons]

theorem getLast?_running (cumulative bucket : ℕ) (buckets : List ℕ) :
    (running cumulative (bucket :: buckets)).getLast?
      = some (u64 (cumulative + (bucket :: buckets).sum)) := by
  induction buckets generalizing cumulative bucket with
  | nil => simp [running]
  | cons bucket' buckets ih =>
    have hih := ih (u64 (cumulative + bucket)) bucket'
    rw [u64_u64_add] at hih
    rw [running, running, List.getLast?_cons_cons, ← running, hih, List.sum_cons (a := bucket),
      Nat.add_assoc]

/-- The counts go up as long as they do not wrap. -/
theorem isChain_running_iff {cumulative : ℕ} {buckets : List ℕ} (h : cumulative < 2 ^ 64)
    (hlt : ∀ bucket ∈ buckets, bucket < 2 ^ 64) :
    List.IsChain (· ≤ ·) (cumulative :: running cumulative buckets)
      ↔ cumulative + buckets.sum < 2 ^ 64 := by
  induction buckets generalizing cumulative with
  | nil => simpa [running] using h
  | cons bucket buckets ih =>
    have hb := hlt bucket List.mem_cons_self
    rw [running, List.isChain_cons_cons,
      ih (u64_lt _) (fun b hb => hlt b (List.mem_cons_of_mem _ hb)), List.sum_cons]
    by_cases hsum : cumulative + bucket < 2 ^ 64
    · have hu : u64 (cumulative + bucket) = cumulative + bucket := Nat.mod_eq_of_lt hsum
      rw [hu]
      omega
    · have hu : u64 (cumulative + bucket) = cumulative + bucket - 2 ^ 64 := by
        unfold u64
        omega
      rw [hu]
      omega

/-- The values of the label `le`. -/
def HistogramValue.les (h : HistogramValue F) : List String :=
  h.bounds.map F64.toString ++ ["+Inf"]

theorem map_bound_range (h : HistogramValue F) :
    (List.range' 0 (h.bounds.length + 1)).map h.bound = h.les := by
  apply List.ext_getElem
  · simp [HistogramValue.les]
  · intro i hi hi'
    rw [List.getElem_map, List.getElem_range', HistogramValue.bound, Nat.zero_add, Nat.one_mul]
    by_cases hlt : i < h.bounds.length
    · simp [HistogramValue.les, hlt]
    · have heq : i = h.bounds.length := by
        simp only [List.length_map, List.length_range'] at hi
        omega
      subst heq
      simp [HistogramValue.les]

def bucketSample (key : MetricKey) (le : String) (count : ℕ) : Line F :=
  .sample key (key.name ++ "_bucket") (key.labels.insert "le" le) (.uint count)

theorem bucketSamples_eq (key : MetricKey) (h : HistogramValue F) (index cumulative : ℕ)
    (buckets : List ℕ) :
    bucketSamples key h index cumulative buckets
      = List.zipWith (bucketSample key) ((List.range' index buckets.length).map h.bound)
          (running cumulative buckets) := by
  induction buckets generalizing index cumulative with
  | nil => rfl
  | cons bucket buckets ih =>
    rw [bucketSamples, ih, List.length_cons, List.range'_succ, running]
    rfl

theorem HistogramValue.Valid.bucketSamples {h : HistogramValue F} (hv : h.Valid) (key : MetricKey) :
    bucketSamples key h 0 0 h.buckets
      = List.zipWith (bucketSample key) h.les (running 0 h.buckets) := by
  rw [bucketSamples_eq, hv.length, map_bound_range]

def Line.isSampleOf (key : MetricKey) : Line F → Bool
  | .header .. => false
  | .sample key' _ _ _ => key' = key

theorem filter_samples (key key' : MetricKey) (metric : Metric F) :
    (metric.samples observed key').filter (Line.isSampleOf key)
      = if key' = key then metric.samples observed key' else [] := by
  split_ifs with hkey
  · apply List.filter_eq_self.2
    intro l hl
    obtain ⟨_, _, _, rfl⟩ := Metric.mem_samples hl
    simpa [Line.isSampleOf] using hkey
  · apply List.filter_eq_nil_iff.2
    intro l hl
    obtain ⟨_, _, _, rfl⟩ := Metric.mem_samples hl
    simpa [Line.isSampleOf] using hkey

theorem filter_renderEntries (key : MetricKey) (rendered : List String)
    (entries : List (MetricKey × Metric F)) :
    (renderEntries observed rendered entries).filter (Line.isSampleOf key)
      = entries.flatMap fun e => if e.1 = key then e.2.samples observed e.1 else [] := by
  induction entries generalizing rendered with
  | nil => rfl
  | cons e entries ih =>
    obtain ⟨key', metric⟩ := e
    rw [renderEntries, List.filter_append, List.filter_append, ih, filter_samples,
      List.flatMap_cons]
    split_ifs <;> simp [Line.isSampleOf]

theorem flatMap_samples_eq_nil {entries : List (MetricKey × Metric F)} {key : MetricKey}
    (h : ∀ e ∈ entries, e.1 ≠ key) :
    (entries.flatMap fun e => if e.1 = key then e.2.samples observed e.1 else []) = [] := by
  apply List.flatMap_eq_nil_iff.2
  intro e he
  exact if_neg (h e he)

/-- Every metric has a key of its own. -/
theorem flatMap_samples {registry : Registry F} {key : MetricKey} {metric : Metric F}
    (h : (key, metric) ∈ registry.entries) :
    (registry.entries.flatMap fun e => if e.1 = key then e.2.samples observed e.1 else [])
      = metric.samples observed key := by
  obtain ⟨before, after, heq⟩ := List.append_of_mem h
  have hsorted := registry.sorted
  rw [heq, List.pairwise_append, List.pairwise_cons] at hsorted
  obtain ⟨-, ⟨hafter, -⟩, hbefore⟩ := hsorted
  have hbefore' : ∀ e ∈ before, e.1 ≠ key := fun e he =>
    ne_of_lt (hbefore e he (key, metric) List.mem_cons_self)
  have hafter' : ∀ e ∈ after, e.1 ≠ key := fun e he => ne_of_gt (hafter e he)
  rw [heq, List.flatMap_append, List.flatMap_cons, flatMap_samples_eq_nil hbefore',
    flatMap_samples_eq_nil hafter', if_pos rfl, List.nil_append, List.append_nil]

/-! ## Series -/

/-- The name and the labels of a sample line. -/
def Line.series : Line F → Option (String × Labels)
  | .header .. => none
  | .sample _ name labels _ => some (name, labels)

def Metric.series (key : MetricKey) : Metric F → List (String × Labels)
  | .histogram _ h =>
    h.les.map (fun le => (key.name ++ "_bucket", key.labels.insert "le" le)) ++
      [(key.name ++ "_sum", key.labels), (key.name ++ "_count", key.labels)]
  | _ => [(key.name, key.labels)]

omit [F64 F] in
theorem filterMap_zipWith_bucketSample (key : MetricKey) {les : List String} {counts : List ℕ}
    (h : les.length = counts.length) :
    (List.zipWith (bucketSample (F := F) key) les counts).filterMap Line.series
      = les.map fun le => (key.name ++ "_bucket", key.labels.insert "le" le) := by
  induction les generalizing counts with
  | nil => rfl
  | cons le les ih =>
    cases counts with
    | nil => simp at h
    | cons count counts =>
      rw [List.zipWith_cons_cons, List.map_cons, ← ih (Nat.succ.inj h)]
      rfl

omit [F64 F] in
theorem eq_of_zipWith_bucketSample {key : MetricKey} {les : List String} {counts counts' : List ℕ}
    (h : List.zipWith (bucketSample (F := F) key) les counts
      = List.zipWith (bucketSample key) les counts')
    (hlength : counts.length = les.length) (hlength' : counts'.length = les.length) :
    counts = counts' := by
  induction les generalizing counts counts' with
  | nil => rw [List.length_eq_zero_iff.1 hlength, List.length_eq_zero_iff.1 hlength']
  | cons le les ih =>
    cases counts with
    | nil => simp at hlength
    | cons count counts =>
      cases counts' with
      | nil => simp at hlength'
      | cons count' counts' =>
        rw [List.zipWith_cons_cons, List.zipWith_cons_cons, List.cons.injEq] at h
        have hcount : count = count' := by simpa [bucketSample] using h.1
        rw [hcount, ih h.2 (Nat.succ.inj hlength) (Nat.succ.inj hlength')]

theorem HistogramValue.Valid.length_les {h : HistogramValue F} (hv : h.Valid) :
    h.les.length = (running 0 h.buckets).length := by
  rw [length_running, hv.length]
  simp [les]

theorem Metric.Valid.filterMap_samples {metric : Metric F} (hv : metric.Valid) (key : MetricKey) :
    (metric.samples observed key).filterMap Line.series = metric.series key := by
  cases metric with
  | histogram help h =>
    have hv : h.Valid := hv
    rw [samples, List.filterMap_append, hv.bucketSamples,
      filterMap_zipWith_bucketSample key hv.length_les]
    rfl
  | counter help value => rfl
  | gauge help value => rfl
  | observableGauge help => rfl

theorem filterMap_renderEntries {entries : List (MetricKey × Metric F)}
    (hv : ∀ e ∈ entries, e.2.Valid) (rendered : List String) :
    (renderEntries observed rendered entries).filterMap Line.series
      = entries.flatMap fun e => e.2.series e.1 := by
  induction entries generalizing rendered with
  | nil => rfl
  | cons e entries ih =>
    obtain ⟨key, metric⟩ := e
    have hmetric : metric.Valid := hv _ List.mem_cons_self
    rw [renderEntries, List.filterMap_append, List.filterMap_append, hmetric.filterMap_samples,
      ih fun e he => hv e (List.mem_cons_of_mem _ he), List.flatMap_cons]
    split_ifs <;> simp [Line.series]

/-! ## Derived names -/

/-- Texts whose last three letters differ. -/
theorem append_ne_append {n n' s s' : String} (hs : 3 ≤ s.toList.reverse.length)
    (hs' : 3 ≤ s'.toList.reverse.length)
    (h : s.toList.reverse.take 3 ≠ s'.toList.reverse.take 3) : n ++ s ≠ n' ++ s' := by
  intro heq
  have htake := congrArg (fun t => t.toList.reverse.take 3) heq
  simp only [String.toList_append, List.reverse_append] at htake
  rw [List.take_append_of_le_length hs, List.take_append_of_le_length hs'] at htake
  exact h htake

theorem bucket_ne_sum (n n' : String) : n ++ "_bucket" ≠ n' ++ "_sum" :=
  append_ne_append (by decide) (by decide) (by decide)

theorem bucket_ne_count (n n' : String) : n ++ "_bucket" ≠ n' ++ "_count" :=
  append_ne_append (by decide) (by decide) (by decide)

theorem sum_ne_count (n n' : String) : n ++ "_sum" ≠ n' ++ "_count" :=
  append_ne_append (by decide) (by decide) (by decide)

/-- `other` is the name and the labels of a sample of the histogram. -/
def HistogramValue.Derives (h : HistogramValue F) (key other : MetricKey) : Prop :=
  ((other.name = key.name ++ "_sum" ∨ other.name = key.name ++ "_count") ∧
    other.labels = key.labels) ∨
  other.name = key.name ++ "_bucket" ∧ ∃ le ∈ h.les, other.labels = key.labels.insert "le" le

theorem mem_series_histogram {key other : MetricKey} {help : String} {h : HistogramValue F} :
    (other.name, other.labels) ∈ (Metric.histogram help h).series key ↔ h.Derives key other := by
  simp only [Metric.series, List.mem_append, List.mem_map, List.mem_cons, List.not_mem_nil,
    or_false, Prod.mk.injEq, HistogramValue.Derives]
  constructor
  · intro hmem
    rcases hmem with ⟨le, hle, hname, hlabels⟩ | ⟨hname, hlabels⟩ | ⟨hname, hlabels⟩
    · exact Or.inr ⟨hname.symm, le, hle, hlabels.symm⟩
    · exact Or.inl ⟨Or.inl hname, hlabels⟩
    · exact Or.inl ⟨Or.inr hname, hlabels⟩
  · intro hder
    rcases hder with ⟨hname | hname, hlabels⟩ | ⟨hname, le, hle, hlabels⟩
    · exact Or.inr (Or.inl ⟨hname, hlabels⟩)
    · exact Or.inr (Or.inr ⟨hname, hlabels⟩)
    · exact Or.inl ⟨le, hle, hname.symm, hlabels.symm⟩

omit [F64 F] in
theorem Metric.of_kind_histogram (metric : Metric F) (h : metric.kind = .histogram) :
    ∃ help value, metric = .histogram help value := by
  cases metric with
  | histogram help value => exact ⟨help, value, rfl⟩
  | counter help value => cases h
  | gauge help value => cases h
  | observableGauge help => cases h

theorem series_of_kind {metric : Metric F} (h : metric.kind ≠ .histogram) (key : MetricKey) :
    metric.series key = [(key.name, key.labels)] := by
  cases metric with
  | histogram help value => exact absurd rfl h
  | counter help value => rfl
  | gauge help value => rfl
  | observableGauge help => rfl

theorem nodup_series_histogram {key : MetricKey} {help : String} {h : HistogramValue F} :
    ((Metric.histogram help h).series key).Nodup ↔ h.les.Nodup := by
  rw [Metric.series, List.nodup_append]
  constructor
  · intro h
    exact h.1.of_map
  · intro hles
    refine ⟨?_, ?_, ?_⟩
    · apply List.Nodup.map _ hles
      intro le le' heq
      exact (BTreeMap.insert_eq_insert_iff.1 (congrArg Prod.snd heq)).1
    · have hne : key.name ++ "_sum" ≠ key.name ++ "_count" := sum_ne_count _ _
      simp [hne]
    · intro a ha b hb heq
      subst heq
      obtain ⟨le, -, rfl⟩ := List.mem_map.1 ha
      simp only [List.mem_cons, Prod.mk.injEq, List.not_mem_nil, or_false] at hb
      rcases hb with ⟨hname, -⟩ | ⟨hname, -⟩
      · exact bucket_ne_sum _ _ hname
      · exact bucket_ne_count _ _ hname

/-- Two histograms never share `_sum` or `_count`, and they share a bucket line only if they have
one name and labels that differ in `le` at most. -/
theorem disjoint_histograms {key key' : MetricKey} {help help' : String} {h h' : HistogramValue F}
    (hkey : key ≠ key') :
    List.Disjoint ((Metric.histogram help h).series key) ((Metric.histogram help' h').series key')
      ↔ (key.name = key'.name → key.labels.erase "le" ≠ key'.labels.erase "le") := by
  constructor
  · intro hdisj hname herase
    have hinf : ∀ h : HistogramValue F, "+Inf" ∈ h.les := fun h => by simp [HistogramValue.les]
    have heq : key.labels.insert "le" "+Inf" = key'.labels.insert "le" "+Inf" :=
      BTreeMap.insert_eq_insert_iff.2 ⟨rfl, herase⟩
    refine hdisj (a := (key.name ++ "_bucket", key.labels.insert "le" "+Inf")) ?_ ?_
    · exact List.mem_append_left _ (List.mem_map.2 ⟨_, hinf h, rfl⟩)
    · rw [hname, heq]
      exact List.mem_append_left _ (List.mem_map.2 ⟨_, hinf h', rfl⟩)
  · intro hne s hs hs'
    simp only [Metric.series, List.mem_append, List.mem_map, List.mem_cons, List.not_mem_nil,
      or_false] at hs hs'
    have hsame : ∀ {suffix : String},
        (key.name ++ suffix, key.labels) = (key'.name ++ suffix, key'.labels) → False := by
      intro suffix heq
      apply hkey
      obtain ⟨hname, hlabels⟩ := Prod.mk.inj heq
      cases key
      cases key'
      rw [String.append_left_inj] at hname
      simp_all
    rcases hs with ⟨le, -, rfl⟩ | rfl | rfl
    · rcases hs' with ⟨le', -, heq⟩ | heq | heq
      · obtain ⟨hname, hlabels⟩ := Prod.mk.inj heq
        exact hne ((String.append_left_inj _).1 hname).symm
          (BTreeMap.insert_eq_insert_iff.1 hlabels).2.symm
      · exact bucket_ne_sum _ _ (Prod.mk.inj heq).1
      · exact bucket_ne_count _ _ (Prod.mk.inj heq).1
    · rcases hs' with ⟨le', -, heq⟩ | heq | heq
      · exact bucket_ne_sum _ _ (Prod.mk.inj heq).1
      · exact hsame heq
      · exact sum_ne_count _ _ (Prod.mk.inj heq).1
    · rcases hs' with ⟨le', -, heq⟩ | heq | heq
      · exact bucket_ne_count _ _ (Prod.mk.inj heq).1
      · exact sum_ne_count _ _ (Prod.mk.inj heq).1.symm
      · exact hsame heq

/-! ## The exposition -/

/-- The metrics of a registry do not meet in a sample line, and the counts of a histogram fit. -/
structure Registry.Separate (registry : Registry F) : Prop where
  /-- The texts of the bounds differ, and none is that of the last bucket. -/
  bounds : ∀ key help h, (key, .histogram help h) ∈ registry.entries → h.les.Nodup
  /-- Histograms of one name differ in another label than `le`. -/
  labels : ∀ key help h, (key, .histogram help h) ∈ registry.entries →
    ∀ key' help' h', (key', .histogram help' h') ∈ registry.entries → key ≠ key' →
      key.name = key'.name → key.labels.erase "le" ≠ key'.labels.erase "le"
  /-- No other metric has the name and the labels of a line of a histogram. -/
  derived : ∀ key help h, (key, .histogram help h) ∈ registry.entries →
    ∀ e ∈ registry.entries, e.2.kind ≠ .histogram → ¬ h.Derives key e.1
  counts : ∀ key help h, (key, .histogram help h) ∈ registry.entries → h.buckets.sum < 2 ^ 64

/-- There is one header of the family, it comes before the samples, and it is right for all of its
metrics. -/
def Metrics.Headed (m : Metrics F) (observed : MetricKey → F) (name : String) : Prop :=
  ∃ before key help metricType after,
    m.lines observed = before ++ .header key name help metricType :: after ∧
    (∀ l ∈ before, l.key.name ≠ name) ∧ (∀ l ∈ after, ¬ l.isHeaderOf name) ∧
    ∀ e ∈ m.registry.entries, e.1.name = name →
      e.2.kind.metricType = metricType ∧ e.2.help = help

/-- The buckets of the histogram count up to its `_count`. -/
def Metrics.Cumulative (m : Metrics F) (observed : MetricKey → F) (key : MetricKey)
    (h : HistogramValue F) : Prop :=
  ∃ counts : List ℕ,
    counts.length = h.les.length ∧ counts.Pairwise (· ≤ ·) ∧ counts.getLast? = some h.count ∧
    (m.lines observed).filter (Line.isSampleOf key) =
      List.zipWith (bucketSample key) h.les counts ++
        [.sample key (key.name ++ "_sum") key.labels (.float h.sum),
          .sample key (key.name ++ "_count") key.labels (.uint h.count)]

structure Metrics.WellFormed (m : Metrics F) (observed : MetricKey → F) : Prop where
  headed : ∀ e ∈ m.registry.entries, m.Headed observed e.1.name
  escape : Function.Injective escapeValue
  cumulative : ∀ key help h, (key, .histogram help h) ∈ m.registry.entries →
    m.Cumulative observed key h
  /-- No two samples have the same name and labels. -/
  distinct : ((m.lines observed).filterMap Line.series).Nodup

theorem Metrics.Ok.lines {m : Metrics F} (hok : m.Ok) :
    m.lines observed = renderEntries observed [] m.registry.entries := by
  unfold Metrics.lines
  split_ifs with hnoop
  · rw [hok.noop hnoop]
    rfl
  · rfl

theorem Metrics.Ok.headed {m : Metrics F} (hok : m.Ok) {e : MetricKey × Metric F}
    (he : e ∈ m.registry.entries) : m.Headed observed e.1.name := by
  obtain ⟨e₀, he₀, hname, before, after, heq, hbefore, hafter⟩ :=
    exists_header observed he List.not_mem_nil
  refine ⟨before, e₀.1, e₀.2.help, e₀.2.kind.metricType, after, hok.lines.trans heq, hbefore,
    hafter, ?_⟩
  intro e' he' hname'
  obtain ⟨hkind, hhelp⟩ := hok.families e' he' e₀ he₀ (hname'.trans hname.symm)
  exact ⟨congrArg MetricKind.metricType hkind, hhelp⟩

theorem Metrics.Ok.samples {m : Metrics F} (hok : m.Ok) {key : MetricKey} {metric : Metric F}
    (h : (key, metric) ∈ m.registry.entries) :
    (m.lines observed).filter (Line.isSampleOf key) = metric.samples observed key := by
  rw [hok.lines, filter_renderEntries, flatMap_samples h]

omit [F64 F] in
theorem HistogramValue.Valid.getLast?_running {h : HistogramValue F} (hv : h.Valid) :
    (running 0 h.buckets).getLast? = some h.count := by
  cases hbuckets : h.buckets with
  | nil =>
    have := hv.length
    simp [hbuckets] at this
  | cons bucket buckets => rw [Prometheus.getLast?_running, hv.count, hbuckets, Nat.zero_add]

omit [F64 F] in
theorem HistogramValue.Valid.pairwise_running_iff {h : HistogramValue F} (hv : h.Valid) :
    (running 0 h.buckets).Pairwise (· ≤ ·) ↔ h.buckets.sum < 2 ^ 64 := by
  have hchain := isChain_running_iff (show 0 < 2 ^ 64 by decide) hv.lt
  rw [Nat.zero_add, List.isChain_iff_pairwise, List.pairwise_cons] at hchain
  rw [← hchain]
  simp

/-- The lines of a histogram count up as long as the counts fit. -/
theorem Metrics.Ok.cumulative_iff {m : Metrics F} (hok : m.Ok) {key : MetricKey} {help : String}
    {h : HistogramValue F} (hmem : (key, .histogram help h) ∈ m.registry.entries) :
    m.Cumulative observed key h ↔ h.buckets.sum < 2 ^ 64 := by
  have hv : h.Valid := hok.valid _ hmem
  unfold Metrics.Cumulative
  rw [hok.samples hmem, Metric.samples, hv.bucketSamples, ← hv.pairwise_running_iff]
  constructor
  · intro hcounts
    obtain ⟨counts, hlength, hsorted, -, heq⟩ := hcounts
    have hrunning : running 0 h.buckets = counts :=
      eq_of_zipWith_bucketSample (List.append_cancel_right heq) hv.length_les.symm hlength
    rw [hrunning]
    exact hsorted
  · intro hsorted
    exact ⟨running 0 h.buckets, hv.length_les.symm, hsorted, hv.getLast?_running, rfl⟩

omit [F64 F] in
/-- Bindings of one key are one binding. -/
theorem ne_key {registry : Registry F} {e e' : MetricKey × Metric F} (he : e ∈ registry.entries)
    (he' : e' ∈ registry.entries) (hne : e ≠ e') : e.1 ≠ e'.1 := by
  intro hkey
  apply hne
  have h := BTreeMap.get_eq_some_iff.2 he
  have h' := BTreeMap.get_eq_some_iff.2 he'
  rw [hkey, h', Option.some.injEq] at h
  exact Prod.ext hkey h.symm

/-- The counts of a histogram add up to less than `2 ^ 64`. -/
def Metric.Fits : Metric F → Prop
  | .histogram _ h => h.buckets.sum < 2 ^ 64
  | _ => True

instance (metric : Metric F) : Decidable metric.Fits :=
  match metric with
  | .histogram _ h => inferInstanceAs (Decidable (h.buckets.sum < 2 ^ 64))
  | .counter .. => isTrue trivial
  | .gauge .. => isTrue trivial
  | .observableGauge .. => isTrue trivial

/-- What keeps the lines of two metrics apart. -/
theorem Registry.Separate.disjoint {registry : Registry F} (hs : Registry.Separate registry)
    {e e' : MetricKey × Metric F} (he : e ∈ registry.entries) (he' : e' ∈ registry.entries)
    (hne : e ≠ e') : List.Disjoint (e.2.series e.1) (e'.2.series e'.1) := by
  have hkey : e.1 ≠ e'.1 := ne_key he he' hne
  obtain ⟨key, metric⟩ := e
  obtain ⟨key', metric'⟩ := e'
  by_cases hkind : metric.kind = .histogram
  · by_cases hkind' : metric'.kind = .histogram
    · obtain ⟨help, h, rfl⟩ := metric.of_kind_histogram hkind
      obtain ⟨help', h', rfl⟩ := metric'.of_kind_histogram hkind'
      exact (disjoint_histograms hkey).2 (hs.labels key help h he key' help' h' he' hkey)
    · obtain ⟨help, h, rfl⟩ := metric.of_kind_histogram hkind
      show List.Disjoint _ (metric'.series key')
      rw [series_of_kind hkind', List.disjoint_singleton]
      exact fun hmem => hs.derived key help h he _ he' hkind' (mem_series_histogram.1 hmem)
  · show List.Disjoint (metric.series key) _
    rw [series_of_kind hkind, List.singleton_disjoint]
    by_cases hkind' : metric'.kind = .histogram
    · obtain ⟨help', h', rfl⟩ := metric'.of_kind_histogram hkind'
      exact fun hmem => hs.derived key' help' h' he' _ he hkind (mem_series_histogram.1 hmem)
    · show _ ∉ metric'.series key'
      rw [series_of_kind hkind', List.mem_singleton]
      intro heq
      apply hkey
      cases key
      cases key'
      simpa using heq

theorem Registry.Separate.fits {registry : Registry F} (hs : Registry.Separate registry)
    {e : MetricKey × Metric F} (he : e ∈ registry.entries) : e.2.Fits := by
  obtain ⟨key, metric⟩ := e
  cases metric with
  | histogram help h => exact hs.counts key help h he
  | counter help value => exact trivial
  | gauge help value => exact trivial
  | observableGauge help => exact trivial

theorem Registry.Separate.nodup {registry : Registry F} (hs : Registry.Separate registry)
    {e : MetricKey × Metric F} (he : e ∈ registry.entries) : (e.2.series e.1).Nodup := by
  obtain ⟨key, metric⟩ := e
  show (metric.series key).Nodup
  by_cases hkind : metric.kind = .histogram
  · obtain ⟨help, h, rfl⟩ := metric.of_kind_histogram hkind
    exact nodup_series_histogram.2 (hs.bounds key help h he)
  · rw [series_of_kind hkind]
    exact List.nodup_singleton _

theorem separate_iff {registry : Registry F} :
    Registry.Separate registry ↔ (∀ e ∈ registry.entries, e.2.Fits) ∧
      (registry.entries.flatMap fun e => e.2.series e.1).Nodup := by
  rw [List.nodup_flatMap]
  constructor
  · intro hs
    refine ⟨fun e he => hs.fits he, fun e he => hs.nodup he, ?_⟩
    exact registry.nodup_entries.pairwise_of_forall_ne fun e he e' he' hne => hs.disjoint he he' hne
  · intro h
    obtain ⟨hfits, hnodup, hpair⟩ := h
    have hdisj : ∀ {e e'}, e ∈ registry.entries → e' ∈ registry.entries → e.1 ≠ e'.1 →
        List.Disjoint (e.2.series e.1) (e'.2.series e'.1) := by
      intro e e' he he' hkey
      have : Std.Symm (Function.onFun List.Disjoint
          fun e : MetricKey × Metric F => e.2.series e.1) := ⟨fun _ _ h => h.symm⟩
      exact hpair.forall he he' fun heq => hkey (congrArg Prod.fst heq)
    refine ⟨?_, ?_, ?_, fun key help h hmem => hfits _ hmem⟩
    · intro key help h hmem
      exact nodup_series_histogram.1 (hnodup _ hmem)
    · intro key help h hmem key' help' h' hmem' hkey
      exact (disjoint_histograms hkey).1 (hdisj hmem hmem' hkey)
    · intro key help h hmem e he hkind hder
      have hkey : key ≠ e.1 := by
        intro hkey
        have hget := BTreeMap.get_eq_some_iff.2 hmem
        rw [hkey, BTreeMap.get_eq_some_iff.2 (show (e.1, e.2) ∈ registry.entries from he),
          Option.some.injEq] at hget
        rw [hget] at hkind
        exact hkind rfl
      have hmem' : (e.1.name, e.1.labels) ∈ e.2.series e.1 := by
        rw [series_of_kind hkind]
        exact List.mem_singleton_self _
      exact hdisj hmem he hkey (mem_series_histogram.2 hder) hmem'

/-- **The exposition is well formed exactly for a registry whose metrics do not meet.** -/
theorem exposition_well_formed_iff {otel noop : Bool} {m : Metrics F}
    (h : (system otel noop).Reachable m) (observed : MetricKey → F) :
    m.WellFormed observed ↔ Registry.Separate m.registry := by
  have hok := ok_reachable h
  have hseries : (m.lines observed).filterMap Line.series
      = m.registry.entries.flatMap fun e => e.2.series e.1 := by
    rw [hok.lines, filterMap_renderEntries hok.valid]
  rw [separate_iff, ← hseries]
  constructor
  · intro hw
    refine ⟨fun e he => ?_, hw.distinct⟩
    obtain ⟨key, metric⟩ := e
    cases metric with
    | histogram help h => exact (hok.cumulative_iff he).1 (hw.cumulative key help h he)
    | counter help value => exact trivial
    | gauge help value => exact trivial
    | observableGauge help => exact trivial
  · intro hs
    exact ⟨fun e he => hok.headed he, escapeValue_injective,
      fun key help h hmem => (hok.cumulative_iff hmem).2 (hs.1 _ hmem), hs.2⟩

instance (registry : Registry F) : Decidable (Registry.Separate registry) :=
  decidable_of_iff _ separate_iff.symm

/-- Exact numbers: their integers are written like those of `f64`. -/
instance : F64 ℚ where
  toString x := if x.den = 1 then ToString.toString x.num else ToString.toString x
  lt x y := x < y
  partitionPoint bounds p := (List.takeWhile p bounds).length
  partitionPoint_le _ p := (List.takeWhile_sublist p).length_le

/-- `task_pool_tasks_total` and `task_pool_duration` with two observations. -/
def poolMetrics : List (Action ℚ) :=
  let scope : Scope := ⟨"task_pool", BTreeMap.new.insert "service" "orders"⟩
  [.counter scope "tasks_total" "Total" (BTreeMap.new.insert "name" "default"),
    .histogram scope "duration" "Duration" .new (some [1, 10]),
    .record (scope.key "duration" .new) (.observe 2),
    .record (scope.key "duration" .new) (.observe 20)]

theorem exposition_well_formed_iff_poolMetrics :
    ∃ m : Metrics ℚ, (system false false).Reachable m ∧ m.registry.len = 2 ∧
      m.WellFormed fun _ => 0 := by
  have hrun : (((system (F := ℚ) false false).run (system false false).init poolMetrics).map
      fun m => decide (m.registry.len = 2 ∧ Registry.Separate m.registry)) = some true := by
    decide +kernel
  obtain ⟨m, hm, hdec⟩ := Option.map_eq_some_iff.mp hrun
  obtain ⟨hlen, hsep⟩ := of_decide_eq_true hdec
  have hreach := System.Reachable.run .init hm
  exact ⟨m, hreach, hlen, (exposition_well_formed_iff hreach _).2 hsep⟩

/-- A histogram `x` without bounds and a counter `x_count`. -/
def sameCount : List (Action ℚ) :=
  [.histogram ⟨"x", .new⟩ "" "Size" .new (some []), .counter ⟨"x", .new⟩ "count" "Calls" .new]

/-- The line `x_count` is written twice. -/
theorem count_written_twice :
    ¬ ∀ m : Metrics ℚ, (system false false).Reachable m → ∀ observed, m.WellFormed observed := by
  have hrun : (((system (F := ℚ) false false).run (system false false).init sameCount).map
      fun m => decide (((m.lines fun _ => 0).filterMap Line.series).Nodup)) = some false := by
    decide +kernel
  obtain ⟨m, hm, hdec⟩ := Option.map_eq_some_iff.mp hrun
  intro h
  exact of_decide_eq_false hdec (h m (System.Reachable.run .init hm) _).distinct

example : ((system (F := ℚ) false false).run (system false false).init sameCount).map
    (fun m => m.renderPrometheus fun _ => 0) = some
      ("# HELP x Size\n# TYPE x histogram\nx_bucket\x7ble=\"+Inf\"\x7d 0\nx_sum 0\nx_count 0\n" ++
        "# HELP x_count Calls\n# TYPE x_count counter\nx_count 0\n") := by
  decide +kernel

end Prometheus

end ServiceLib
