import ServiceLib.Datasource.ResultRouting

/-!
# The age of pending requests

Follows `PendingRequests` in `src/runtime/datasource.rs` and its uses in the four sources. A request
that awaits a result is in two places: in the `pending` map, and in the timestamps from which the
age of the oldest pending request is observed. Both are locked on their own. Here a request is only
what it does to the two, one critical section at a time:

* HTTP and custom: `pending.set`, `add`; then `pending.pop`, `remove`.
* gRPC: the same, with `pop_if` for its own entry.
* Kafka: `pending.set`, `add`; then `remove`, `pending.pop`.

`add` and `remove` are a step of the gauge and a step of the timestamps.

**Theorem (`pending_metrics_match`).** As long as no request records its timestamp while another one
with the same id has left `pending` but not the timestamps, the timestamps are those of the
requests that await results whenever no request is in between. Kafka's order needs no condition.

The idea: a timestamp belongs to one request. An id in the timestamps stands for a request that has
inserted it and not removed it, and two such requests never have the same id.
-/

namespace ServiceLib

/-! ## The timestamps -/

/-- `PendingRequestTimestamps`; an instant is a natural number. -/
structure PendingRequestTimestamps where
  shards : Fin RotatingMap.shardCount → HashMap String ℕ

namespace PendingRequestTimestamps

def new : PendingRequestTimestamps := ⟨fun _ => ∅⟩

variable (hash : String → ℕ)

def insert (p : PendingRequestTimestamps) (streamId : String) (now : ℕ) :
    PendingRequestTimestamps :=
  let i := RotatingMap.shard hash streamId
  ⟨Function.update p.shards i ((p.shards i).insert streamId now)⟩

def remove (p : PendingRequestTimestamps) (streamId : String) : PendingRequestTimestamps :=
  let i := RotatingMap.shard hash streamId
  ⟨Function.update p.shards i ((p.shards i).erase streamId)⟩

/-- The instant whose age is observed; `⊤` when there is none. -/
def oldest (p : PendingRequestTimestamps) : WithTop ℕ :=
  Finset.univ.inf fun i => (p.shards i).keys.inf fun streamId =>
    ((p.shards i).lookup streamId).elim ⊤ (↑)

/-- The ids with a timestamp. -/
def ids (p : PendingRequestTimestamps) : Finset String :=
  Finset.univ.biUnion fun i => (p.shards i).keys

theorem mem_ids {p : PendingRequestTimestamps} {streamId : String} :
    streamId ∈ p.ids ↔ ∃ i, streamId ∈ p.shards i := by
  simp [ids, Finmap.mem_keys]

theorem ids_new : new.ids = ∅ := by
  ext streamId
  rw [mem_ids]
  simp [new, Finmap.notMem_empty]

/-- An id is in the shard its hash selects. -/
def WF (p : PendingRequestTimestamps) : Prop :=
  ∀ i streamId, streamId ∈ p.shards i → i = RotatingMap.shard hash streamId

variable {hash}

theorem wf_new : new.WF hash := fun _ _ h => absurd h Finmap.notMem_empty

theorem WF.mem_ids {p : PendingRequestTimestamps} (h : p.WF hash) {streamId : String} :
    streamId ∈ p.ids ↔ streamId ∈ p.shards (RotatingMap.shard hash streamId) := by
  rw [PendingRequestTimestamps.mem_ids]
  constructor
  · rintro ⟨i, hi⟩
    exact h i streamId hi ▸ hi
  · exact fun hi => ⟨_, hi⟩

theorem WF.insert {p : PendingRequestTimestamps} (h : p.WF hash) (streamId : String) (now : ℕ) :
    (p.insert hash streamId now).WF hash := by
  intro i k hk
  by_cases hi : i = RotatingMap.shard hash streamId
  · subst hi
    simp only [PendingRequestTimestamps.insert, Function.update_self, Finmap.mem_insert] at hk
    rcases hk with rfl | hk
    · rfl
    · exact h _ k hk
  · simp only [PendingRequestTimestamps.insert, Function.update_of_ne hi] at hk
    exact h i k hk

theorem WF.remove {p : PendingRequestTimestamps} (h : p.WF hash) (streamId : String) :
    (p.remove hash streamId).WF hash := by
  intro i k hk
  by_cases hi : i = RotatingMap.shard hash streamId
  · subst hi
    simp only [PendingRequestTimestamps.remove, Function.update_self, Finmap.mem_erase] at hk
    exact h _ k hk.2
  · simp only [PendingRequestTimestamps.remove, Function.update_of_ne hi] at hk
    exact h i k hk

theorem WF.ids_insert {p : PendingRequestTimestamps} (h : p.WF hash) (streamId : String) (now : ℕ) :
    (p.insert hash streamId now).ids = Insert.insert streamId p.ids := by
  ext k
  rw [(h.insert streamId now).mem_ids, Finset.mem_insert, h.mem_ids]
  simp only [PendingRequestTimestamps.insert]
  by_cases hi : RotatingMap.shard hash k = RotatingMap.shard hash streamId
  · rw [hi, Function.update_self, Finmap.mem_insert]
  · rw [Function.update_of_ne hi, or_iff_right]
    rintro rfl
    exact hi rfl

theorem WF.ids_remove {p : PendingRequestTimestamps} (h : p.WF hash) (streamId : String) :
    (p.remove hash streamId).ids = p.ids.erase streamId := by
  ext k
  rw [(h.remove streamId).mem_ids, Finset.mem_erase, h.mem_ids]
  simp only [PendingRequestTimestamps.remove]
  by_cases hi : RotatingMap.shard hash k = RotatingMap.shard hash streamId
  · rw [hi, Function.update_self, Finmap.mem_erase]
  · rw [Function.update_of_ne hi, and_iff_right]
    rintro rfl
    exact hi rfl

/-- No timestamp is older than the observed one. -/
theorem oldest_le {p : PendingRequestTimestamps} {i : Fin RotatingMap.shardCount}
    {streamId : String} {instant : ℕ} (h : (p.shards i).lookup streamId = some instant) :
    p.oldest ≤ instant := by
  have hkey : streamId ∈ (p.shards i).keys :=
    Finmap.mem_keys.2 (Finmap.mem_of_lookup_eq_some h)
  calc p.oldest ≤ (p.shards i).keys.inf fun streamId =>
        ((p.shards i).lookup streamId).elim ⊤ (↑) := Finset.inf_le (Finset.mem_univ i)
    _ ≤ ((p.shards i).lookup streamId).elim ⊤ (↑) := Finset.inf_le hkey
    _ = instant := by rw [h, Option.elim_some]

/-- The observed timestamp is that of an id that has one. -/
theorem exists_oldest {p : PendingRequestTimestamps} (h : p.ids.Nonempty) :
    ∃ i streamId instant, (p.shards i).lookup streamId = some instant ∧ p.oldest = instant := by
  obtain ⟨i, -, hi⟩ := Finset.exists_mem_eq_inf Finset.univ
    ⟨⟨0, by decide⟩, Finset.mem_univ _⟩ fun i => (p.shards i).keys.inf fun streamId =>
      ((p.shards i).lookup streamId).elim (⊤ : WithTop ℕ) (↑)
  have holdest : p.oldest = _ := hi
  obtain ⟨k, hk⟩ := h
  obtain ⟨j, hj⟩ := mem_ids.1 hk
  obtain ⟨x, hx⟩ := Finmap.mem_iff.1 hj
  have hne : (p.shards i).keys.Nonempty := by
    by_contra hempty
    rw [Finset.not_nonempty_iff_eq_empty.1 hempty, Finset.inf_empty] at holdest
    have hle := oldest_le hx
    rw [holdest] at hle
    exact absurd hle (by simp)
  obtain ⟨streamId, hmem, hinf⟩ := Finset.exists_mem_eq_inf _ hne fun streamId =>
    ((p.shards i).lookup streamId).elim (⊤ : WithTop ℕ) (↑)
  obtain ⟨instant, hinstant⟩ := Finmap.mem_iff.1 (Finmap.mem_keys.1 hmem)
  refine ⟨i, streamId, instant, hinstant, ?_⟩
  rw [holdest, hinf, hinstant, Option.elim_some]

end PendingRequestTimestamps

namespace PendingMetrics

open RotatingMap ResultRouting

/-! ## The requests -/

/-- Where a request is, between its critical sections. -/
inductive Point
  | absent
  /-- It has its stream id; `pending.set` is next. -/
  | arrived
  | rejected
  /-- In `add`, before `gauge.inc`. -/
  | counting
  /-- In `add`, before the timestamp is inserted. -/
  | stamping
  | awaiting
  /-- In `remove`, before `gauge.dec`. -/
  | uncounting
  /-- In `remove`, before the timestamp is removed. -/
  | unstamping
  /-- Kafka: before `pending.pop`. -/
  | popping
  | finished
  deriving DecidableEq

structure Request where
  streamId : String
  point : Point

/-- Ghost: the requests between the gauge and the timestamps, on their way in and out. -/
structure State where
  pending : RotatingMap String ℕ
  started : PendingRequestTimestamps
  gauge : ℤ
  requests : ℕ → Request
  entering : Finset ℕ
  leaving : Finset ℕ

namespace State

def init : State where
  pending := RotatingMap.new
  started := .new
  gauge := 0
  requests := fun _ => ⟨"", .absent⟩
  entering := ∅
  leaving := ∅

def point (s : State) (r : ℕ) : Point := (s.requests r).point

def streamId (s : State) (r : ℕ) : String := (s.requests r).streamId

/-- Move a request to another point. -/
def goto (s : State) (r : ℕ) (point : Point) : State :=
  { s with requests := Function.update s.requests r { s.requests r with point := point } }

end State

inductive Action
  | arrive (r : ℕ) (streamId : String)
  | set (r : ℕ)
  | count (r : ℕ)
  | stamp (r : ℕ) (now : ℕ)
  /-- The request no longer awaits results. -/
  | leave (r : ℕ)
  | uncount (r : ℕ)
  | unstamp (r : ℕ)
  | pop (r : ℕ)
  | rotateShard (i : Fin shardCount) (order : IterOrder String ℕ)

/-- The metrics are enabled. `hash` is that of the timestamps. -/
def step (cfg : Config) (hash : String → ℕ) (s : State) : Action → Option State
  | .arrive r streamId =>
    match s.point r with
    | .absent => some { s with requests := Function.update s.requests r ⟨streamId, .arrived⟩ }
    | _ => none
  | .set r =>
    match s.point r with
    | .arrived =>
      if cfg.publishes then
        match s.pending.set cfg.hash (s.streamId r) r with
        | (pending, .ok ()) =>
          some ({ s with pending := pending }.goto r (if cfg.hasResult then .counting else .awaiting))
        | (pending, .error _) => some ({ s with pending := pending }.goto r .rejected)
      else some (s.goto r .awaiting)
    | _ => none
  | .count r =>
    match s.point r with
    | .counting =>
      some { s.goto r .stamping with gauge := s.gauge + 1, entering := insert r s.entering }
    | _ => none
  | .stamp r now =>
    match s.point r with
    | .stamping => some { s.goto r .awaiting with
        started := s.started.insert hash (s.streamId r) now
        entering := s.entering.erase r }
    | _ => none
  | .leave r =>
    match s.point r, cfg.source with
    | .awaiting, .kafka => if cfg.hasResult then none else some (s.goto r .finished)
    | .awaiting, .grpc =>
      match s.pending.popIf cfg.hash (s.streamId r) (· == r) with
      | (pending, some _) =>
        some ({ s with pending := pending }.goto r
          (if cfg.hasResult then .uncounting else .finished))
      | (pending, none) => some ({ s with pending := pending }.goto r .finished)
    | .awaiting, .http | .awaiting, .custom =>
      if cfg.hasResult then
        some ({ s with pending := (s.pending.pop cfg.hash (s.streamId r)).1 }.goto r .uncounting)
      else some (s.goto r .finished)
    | _, _ => none
  | .uncount r =>
    -- Kafka begins with the metrics.
    if s.point r = .uncounting ∨ s.point r = .awaiting ∧ cfg.source = .kafka ∧ cfg.hasResult then
      some { s.goto r .unstamping with gauge := s.gauge - 1, leaving := insert r s.leaving }
    else none
  | .unstamp r =>
    match s.point r with
    | .unstamping => some { s.goto r (if cfg.source = .kafka then .popping else .finished) with
        started := s.started.remove hash (s.streamId r)
        leaving := s.leaving.erase r }
    | _ => none
  | .pop r =>
    match s.point r with
    | .popping =>
      some ({ s with pending := (s.pending.pop cfg.hash (s.streamId r)).1 }.goto r .finished)
    | _ => none
  | .rotateShard i order =>
    some { s with pending :=
      s.pending.setShard i ((s.pending.shards i).rotateShard cfg.minCapacity order) }

/-- A source with its metrics, under every interleaving of requests. -/
def metrics (cfg : Config) (hash : String → ℕ) : System State Action := ⟨State.init, step cfg hash⟩

/-! ## The property and its condition -/

/-- No request is between its operation on `pending` and the one on the metrics. -/
def State.Quiet (s : State) : Prop :=
  ∀ r, s.point r = .absent ∨ s.point r = .arrived ∨ s.point r = .rejected ∨
    s.point r = .awaiting ∨ s.point r = .finished

/-- The ids in `pending`, of requests that await results. -/
def State.Awaited (cfg : Config) (s : State) (streamId : String) : Prop :=
  cfg.hasResult = true ∧ s.pending.get cfg.hash streamId ≠ none

/-- The timestamps are those of the awaited ids, the gauge is their number, and the observed
timestamp is the oldest of them. -/
structure Matches (cfg : Config) (s : State) : Prop where
  ids : ∀ streamId, streamId ∈ s.started.ids ↔ s.Awaited cfg streamId
  gauge : s.gauge = s.started.ids.card
  /-- It does not come after that of any awaited id. -/
  ignores : ∀ i streamId instant, (s.started.shards i).lookup streamId = some instant →
    s.started.oldest ≤ instant
  counts : s.started.ids.Nonempty → ∃ i streamId instant,
    (s.started.shards i).lookup streamId = some instant ∧ s.started.oldest = instant ∧
      s.Awaited cfg streamId

/-- No request records its timestamp while another one with the same id has left `pending` but not
the timestamps. Kafka leaves the timestamps first. -/
def Clear (cfg : Config) (s : State) : Action → Prop
  | .stamp r _ => cfg.source = .kafka ∨
      ∀ r', s.point r' = .uncounting ∨ s.point r' = .unstamping → s.streamId r' ≠ s.streamId r
  | _ => True

variable {cfg : Config} {hash : String → ℕ} {s t : State} {a a' : HashMap String ℕ}

/-! ## The pending map -/

/-- The points at which the entry of a request is in `pending`. -/
def Point.InPending (source : Source) : Point → Prop
  | .counting | .stamping | .awaiting => True
  | .unstamping | .popping => source = .kafka
  | _ => False

/-- `pending` holds the requests that are at such a point, under their ids. -/
structure PendingOk (cfg : Config) (s : State) (a : HashMap String ℕ) : Prop where
  refines : Refines cfg.hash s.pending a
  listed : ∀ streamId r, a.lookup streamId = some r ↔
    cfg.publishes = true ∧ s.streamId r = streamId ∧ (s.point r).InPending cfg.source

theorem pendingOk_init (cfg : Config) : PendingOk cfg State.init ∅ where
  refines := refines_new cfg.hash
  listed := fun streamId r => by simp [State.init, State.point, Point.InPending]

/-- A request with another record, and its part of `pending` adjusted. -/
theorem PendingOk.update (h : PendingOk cfg s a) {r : ℕ} {q : Request}
    (hreq : t.requests = Function.update s.requests r q) (href : Refines cfg.hash t.pending a')
    (hown : ∀ streamId, a'.lookup streamId = some r ↔
      cfg.publishes = true ∧ q.streamId = streamId ∧ q.point.InPending cfg.source)
    (hother : ∀ streamId r', r' ≠ r → (a'.lookup streamId = some r' ↔
      a.lookup streamId = some r')) : PendingOk cfg t a' := by
  refine ⟨href, fun streamId r' => ?_⟩
  by_cases hr : r' = r
  · subst hr
    rw [State.streamId, State.point, hreq, Function.update_self]
    exact hown streamId
  · rw [State.streamId, State.point, hreq, Function.update_of_ne hr, hother streamId r' hr]
    exact h.listed streamId r'

/-- A step that leaves `pending` alone, of a request whose entry stays where it is. -/
theorem PendingOk.goto (h : PendingOk cfg s a) {r : ℕ} {p : Point}
    (hreq : t.requests = Function.update s.requests r { s.requests r with point := p })
    (hpending : t.pending = s.pending)
    (hp : p.InPending cfg.source ↔ (s.point r).InPending cfg.source) : PendingOk cfg t a := by
  refine h.update hreq (hpending ▸ h.refines) (fun streamId => ?_) fun streamId r' _ => Iff.rfl
  rw [h.listed, hp]
  rfl

/-- A request puts its entry into `pending`. -/
theorem PendingOk.insert (h : PendingOk cfg s a) {r : ℕ} {p : Point}
    (hreq : t.requests = Function.update s.requests r { s.requests r with point := p })
    (href : Refines cfg.hash t.pending (a.insert (s.streamId r) r)) (hkey : s.streamId r ∉ a)
    (hpub : cfg.publishes = true) (hp : p.InPending cfg.source) :
    PendingOk cfg t (a.insert (s.streamId r) r) := by
  refine h.update hreq href (fun streamId => ?_) fun streamId r' hr => ?_
  · rw [lookup_insert_ite]
    split_ifs with hid
    · exact ⟨fun _ => ⟨hpub, hid.symm, hp⟩, fun _ => rfl⟩
    · rw [h.listed]
      exact ⟨fun hl => absurd hl.2.1.symm hid, fun hl => absurd hl.2.1.symm hid⟩
  · rw [lookup_insert_ite]
    split_ifs with hid
    · subst hid
      rw [Finmap.lookup_eq_none.2 hkey]
      simp [Ne.symm hr]
    · rfl

/-- A request takes its entry out of `pending`. -/
theorem PendingOk.erase (h : PendingOk cfg s a) {r : ℕ} {p : Point}
    (hreq : t.requests = Function.update s.requests r { s.requests r with point := p })
    (href : Refines cfg.hash t.pending (a.erase (s.streamId r)))
    (hin : cfg.publishes = true ∧ (s.point r).InPending cfg.source)
    (hp : ¬ p.InPending cfg.source) : PendingOk cfg t (a.erase (s.streamId r)) := by
  have hmine : a.lookup (s.streamId r) = some r := (h.listed _ r).2 ⟨hin.1, rfl, hin.2⟩
  refine h.update hreq href (fun streamId => ?_) fun streamId r' hr => ?_
  · rw [lookup_erase_ite]
    refine ⟨fun hl => ?_, fun hl => absurd hl.2.2 hp⟩
    split_ifs at hl with hid
    exact absurd ((h.listed streamId r).1 hl).2.1.symm hid
  · rw [lookup_erase_ite]
    split_ifs with hid
    · subst hid
      rw [hmine]
      simp [Ne.symm hr]
    · rfl

/-! ## The timestamps -/

/-- The points at which the timestamp of a request is there. -/
def Point.Stamped : Point → Prop
  | .awaiting | .uncounting | .unstamping => True
  | _ => False

/-- The timestamps are those of the requests that are at such a point, and a timestamp is that of
one request. -/
structure StampsOk (cfg : Config) (hash : String → ℕ) (s : State) : Prop where
  wf : s.started.WF hash
  ids : ∀ streamId, streamId ∈ s.started.ids ↔
    cfg.hasResult = true ∧ ∃ r, s.streamId r = streamId ∧ (s.point r).Stamped
  unique : cfg.hasResult = true → ∀ r r', (s.point r).Stamped → (s.point r').Stamped →
    s.streamId r = s.streamId r' → r = r'

theorem stampsOk_init (cfg : Config) (hash : String → ℕ) : StampsOk cfg hash State.init where
  wf := PendingRequestTimestamps.wf_new
  ids := fun streamId => by
    simp [State.init, State.point, Point.Stamped, PendingRequestTimestamps.ids_new]
  unique := fun _ r r' h => h.elim

/-- A step that leaves the timestamps alone, of a request whose timestamp stays where it is. -/
theorem StampsOk.same (h : StampsOk cfg hash s) {r : ℕ} {q : Request}
    (hreq : t.requests = Function.update s.requests r q) (hstarted : t.started = s.started)
    (hq : cfg.hasResult = true → (q.point.Stamped ↔ (s.point r).Stamped) ∧
      (q.point.Stamped → q.streamId = s.streamId r)) : StampsOk cfg hash t := by
  have hpoint : cfg.hasResult = true → ∀ r', (t.point r').Stamped ↔ (s.point r').Stamped := by
    intro hres r'
    rw [State.point, hreq]
    by_cases hr : r' = r
    · subst hr
      rw [Function.update_self]
      exact (hq hres).1
    · rw [Function.update_of_ne hr]
      rfl
  have hid : cfg.hasResult = true → ∀ r', (s.point r').Stamped → t.streamId r' = s.streamId r' := by
    intro hres r' hst
    rw [State.streamId, hreq]
    by_cases hr : r' = r
    · subst hr
      rw [Function.update_self]
      exact (hq hres).2 ((hq hres).1.2 hst)
    · rw [Function.update_of_ne hr]
      rfl
  refine ⟨hstarted ▸ h.wf, fun streamId => ?_, fun hres r₁ r₂ h₁ h₂ heq => ?_⟩
  · rw [hstarted, h.ids]
    refine and_congr_right fun hres => exists_congr fun r' => ?_
    constructor
    · rintro ⟨rfl, hst⟩
      exact ⟨hid hres r' hst, (hpoint hres r').2 hst⟩
    · rintro ⟨rfl, hst⟩
      have hst := (hpoint hres r').1 hst
      exact ⟨(hid hres r' hst).symm, hst⟩
  · have h₁ := (hpoint hres r₁).1 h₁
    have h₂ := (hpoint hres r₂).1 h₂
    rw [hid hres r₁ h₁, hid hres r₂ h₂] at heq
    exact h.unique hres r₁ r₂ h₁ h₂ heq

/-- A request records its timestamp, and nobody else has one with its id. -/
theorem StampsOk.stamp (h : StampsOk cfg hash s) {r now : ℕ}
    (hreq : t.requests = Function.update s.requests r { s.requests r with point := .awaiting })
    (hstarted : t.started = s.started.insert hash (s.streamId r) now)
    (hres : cfg.hasResult = true) (hfree : ∀ r', (s.point r').Stamped → s.streamId r' ≠ s.streamId r) :
    StampsOk cfg hash t ∧ s.streamId r ∉ s.started.ids := by
  have hself : t.point r = .awaiting ∧ t.streamId r = s.streamId r := by
    rw [State.point, State.streamId, hreq, Function.update_self]
    exact ⟨rfl, rfl⟩
  have hne : ∀ r', r' ≠ r → t.point r' = s.point r' ∧ t.streamId r' = s.streamId r' := by
    intro r' hr
    rw [State.point, State.streamId, hreq, Function.update_of_ne hr]
    exact ⟨rfl, rfl⟩
  refine ⟨⟨hstarted ▸ h.wf.insert _ _, fun streamId => ?_, fun _ r₁ r₂ h₁ h₂ heq => ?_⟩, ?_⟩
  · rw [hstarted, h.wf.ids_insert, Finset.mem_insert, h.ids]
    constructor
    · rintro (rfl | ⟨-, r', rfl, hst⟩)
      · exact ⟨hres, r, hself.2, by rw [hself.1]; trivial⟩
      · have hr : r' ≠ r := by
          rintro rfl
          exact hfree _ hst rfl
        rw [← (hne r' hr).1] at hst
        exact ⟨hres, r', (hne r' hr).2, hst⟩
    · rintro ⟨-, r', rfl, hst⟩
      by_cases hr : r' = r
      · subst hr
        exact .inl hself.2
      · rw [(hne r' hr).1] at hst
        exact .inr ⟨hres, r', (hne r' hr).2.symm, hst⟩
  · by_cases hr₁ : r₁ = r <;> by_cases hr₂ : r₂ = r
    · rw [hr₁, hr₂]
    · subst hr₁
      rw [(hne r₂ hr₂).1] at h₂
      rw [hself.2, (hne r₂ hr₂).2] at heq
      exact absurd heq.symm (hfree r₂ h₂)
    · subst hr₂
      rw [(hne r₁ hr₁).1] at h₁
      rw [hself.2, (hne r₁ hr₁).2] at heq
      exact absurd heq (hfree r₁ h₁)
    · rw [(hne r₁ hr₁).1] at h₁
      rw [(hne r₂ hr₂).1] at h₂
      rw [(hne r₁ hr₁).2, (hne r₂ hr₂).2] at heq
      exact h.unique hres r₁ r₂ h₁ h₂ heq
  · rw [h.ids]
    rintro ⟨-, r', hid, hst⟩
    exact hfree r' hst hid

/-- A request removes its timestamp. -/
theorem StampsOk.unstamp (h : StampsOk cfg hash s) {r : ℕ} {p : Point}
    (hreq : t.requests = Function.update s.requests r { s.requests r with point := p })
    (hstarted : t.started = s.started.remove hash (s.streamId r)) (hres : cfg.hasResult = true)
    (hold : (s.point r).Stamped) (hp : ¬ p.Stamped) :
    StampsOk cfg hash t ∧ s.streamId r ∈ s.started.ids := by
  have hself : ¬ (t.point r).Stamped := by
    rw [State.point, hreq, Function.update_self]
    exact hp
  have hne : ∀ r', r' ≠ r → t.point r' = s.point r' ∧ t.streamId r' = s.streamId r' := by
    intro r' hr
    rw [State.point, State.streamId, hreq, Function.update_of_ne hr]
    exact ⟨rfl, rfl⟩
  refine ⟨⟨hstarted ▸ h.wf.remove _, fun streamId => ?_, fun _ r₁ r₂ h₁ h₂ heq => ?_⟩,
    (h.ids _).2 ⟨hres, r, rfl, hold⟩⟩
  · rw [hstarted, h.wf.ids_remove, Finset.mem_erase, h.ids]
    constructor
    · rintro ⟨hid, -, r', rfl, hst⟩
      have hr : r' ≠ r := by
        rintro rfl
        exact hid rfl
      rw [← (hne r' hr).1] at hst
      exact ⟨hres, r', (hne r' hr).2, hst⟩
    · rintro ⟨-, r', rfl, hst⟩
      have hr : r' ≠ r := by
        rintro rfl
        exact hself hst
      rw [(hne r' hr).1] at hst
      rw [(hne r' hr).2]
      exact ⟨fun hid => hr (h.unique hres r' r hst hold hid), hres, r', rfl, hst⟩
  · have hr₁ : r₁ ≠ r := fun hr => hself (hr ▸ h₁)
    have hr₂ : r₂ ≠ r := fun hr => hself (hr ▸ h₂)
    rw [(hne r₁ hr₁).1] at h₁
    rw [(hne r₂ hr₂).1] at h₂
    rw [(hne r₁ hr₁).2, (hne r₂ hr₂).2] at heq
    exact h.unique hres r₁ r₂ h₁ h₂ heq

/-! ## The gauge -/

/-- The gauge counts the timestamps, but for the requests in between. -/
structure GaugeOk (s : State) : Prop where
  gauge : s.gauge + s.leaving.card = s.started.ids.card + s.entering.card
  entering : ∀ r, r ∈ s.entering ↔ s.point r = .stamping
  leaving : ∀ r, r ∈ s.leaving ↔ s.point r = .unstamping

theorem gaugeOk_init : GaugeOk State.init where
  gauge := by
    simp [State.init, PendingRequestTimestamps.ids_new]
  entering := fun r => by simp [State.init, State.point]
  leaving := fun r => by simp [State.init, State.point]

/-- Membership in the requests at a point, after one of them has moved. -/
theorem mem_update {l l' : Finset ℕ} {r : ℕ} {q : Request} {p : Point}
    (hreq : t.requests = Function.update s.requests r q) (h : ∀ r', r' ∈ l ↔ s.point r' = p)
    (hl : ∀ r', r' ≠ r → (r' ∈ l' ↔ r' ∈ l)) (hself : r ∈ l' ↔ q.point = p) (r' : ℕ) :
    r' ∈ l' ↔ t.point r' = p := by
  rw [State.point, hreq]
  by_cases hr : r' = r
  · subst hr
    rw [Function.update_self]
    exact hself
  · rw [Function.update_of_ne hr, hl r' hr, h]
    rfl

/-- A request that moves between other points. -/
theorem GaugeOk.same (h : GaugeOk s) {r : ℕ} {q : Request}
    (hreq : t.requests = Function.update s.requests r q) (hgauge : t.gauge = s.gauge)
    (hstarted : t.started = s.started) (hentering : t.entering = s.entering)
    (hleaving : t.leaving = s.leaving)
    (hq : (q.point ≠ .stamping ∧ q.point ≠ .unstamping) ∧ s.point r ≠ .stamping ∧
      s.point r ≠ .unstamping) : GaugeOk t := by
  obtain ⟨⟨hq₁, hq₂⟩, hs₁, hs₂⟩ := hq
  refine ⟨?_, ?_, ?_⟩
  · rw [hgauge, hstarted, hentering, hleaving]
    exact h.gauge
  · rw [hentering]
    exact mem_update hreq h.entering (fun _ _ => Iff.rfl) (by simp [h.entering, hq₁, hs₁])
  · rw [hleaving]
    exact mem_update hreq h.leaving (fun _ _ => Iff.rfl) (by simp [h.leaving, hq₂, hs₂])

/-! ## The invariant -/

/-- Which requests get to a point. -/
def Point.Ok (cfg : Config) : Point → Prop
  | .counting | .stamping | .unstamping => cfg.hasResult = true
  | .uncounting => cfg.hasResult = true ∧ cfg.source ≠ .kafka
  | .popping => cfg.hasResult = true ∧ cfg.source = .kafka
  | _ => True

structure Inv (cfg : Config) (hash : String → ℕ) (s : State) : Prop where
  pending : ∃ a, PendingOk cfg s a
  stamps : StampsOk cfg hash s
  gauge : GaugeOk s
  points : ∀ r, (s.point r).Ok cfg

theorem inv_init (cfg : Config) (hash : String → ℕ) : Inv cfg hash State.init where
  pending := ⟨∅, pendingOk_init cfg⟩
  stamps := stampsOk_init cfg hash
  gauge := gaugeOk_init
  points := fun _ => trivial

theorem ok_update {r : ℕ} {q : Request} (h : ∀ r', (s.point r').Ok cfg)
    (hreq : t.requests = Function.update s.requests r q) (hq : q.point.Ok cfg) (r' : ℕ) :
    (t.point r').Ok cfg := by
  rw [State.point, hreq]
  by_cases hr : r' = r
  · subst hr
    rw [Function.update_self]
    exact hq
  · rw [Function.update_of_ne hr]
    exact h r'

theorem publishes_of_hasResult (h : cfg.hasResult = true) : cfg.publishes = true := by
  simp [Config.publishes, h]

/-- Two requests that are both in `pending` have different ids. -/
theorem PendingOk.unique (h : PendingOk cfg s a) (hpub : cfg.publishes = true) {r r' : ℕ}
    (hr : (s.point r).InPending cfg.source) (hr' : (s.point r').InPending cfg.source)
    (hid : s.streamId r' = s.streamId r) : r' = r := by
  have h₁ := (h.listed (s.streamId r) r).2 ⟨hpub, rfl, hr⟩
  have h₂ := (h.listed (s.streamId r) r').2 ⟨hpub, hid, hr'⟩
  rw [h₁] at h₂
  exact (Option.some.inj h₂).symm

/-- When a request records its timestamp, nobody else has one with its id. -/
theorem Inv.stamp_free (h : Inv cfg hash s) {r now : ℕ} (hpc : s.point r = .stamping)
    (hok : Clear cfg s (.stamp r now)) (r' : ℕ) (hst : (s.point r').Stamped) :
    s.streamId r' ≠ s.streamId r := by
  intro hid
  obtain ⟨a, ha⟩ := h.pending
  have hres := h.points r
  rw [hpc] at hres
  have hpub := publishes_of_hasResult hres
  have hin : (s.point r).InPending cfg.source := by
    rw [hpc]
    trivial
  have hdiff : (s.point r').InPending cfg.source → False := by
    intro hin'
    have hr := ha.unique hpub hin hin' hid
    rw [hr, hpc] at hst
    exact hst
  have hpoint := h.points r'
  cases hpc' : s.point r' <;> simp only [hpc', Point.Stamped] at hst hdiff hpoint
  case awaiting => exact hdiff trivial
  case uncounting =>
    exact (hok.resolve_left hpoint.2) r' (.inl hpc') hid
  case unstamping =>
    rcases hok with hkafka | hclear
    · exact hdiff hkafka
    · exact hclear r' (.inr hpc') hid

/-! ### One step -/

/-- The metrics are the same. -/
structure Unmetered (s t : State) : Prop where
  started : t.started = s.started
  gauge : t.gauge = s.gauge
  entering : t.entering = s.entering
  leaving : t.leaving = s.leaving

/-- A step of a request that does nothing to the metrics. -/
theorem Inv.move (h : Inv cfg hash s) {r : ℕ} {q : Request}
    (hreq : t.requests = Function.update s.requests r q) (hpending : ∃ a, PendingOk cfg t a)
    (hmetrics : Unmetered s t)
    (hst : cfg.hasResult = true → (q.point.Stamped ↔ (s.point r).Stamped) ∧
      (q.point.Stamped → q.streamId = s.streamId r))
    (hbetween : (q.point ≠ .stamping ∧ q.point ≠ .unstamping) ∧ s.point r ≠ .stamping ∧
      s.point r ≠ .unstamping) (hok : q.point.Ok cfg) : Inv cfg hash t where
  pending := hpending
  stamps := h.stamps.same hreq hmetrics.started hst
  gauge := h.gauge.same hreq hmetrics.gauge hmetrics.started hmetrics.entering hmetrics.leaving
    hbetween
  points := ok_update h.points hreq hok

theorem Inv.arrive (h : Inv cfg hash s) {r : ℕ} {streamId : String}
    (hs : step cfg hash s (.arrive r streamId) = some t) : Inv cfg hash t := by
  obtain ⟨a, ha⟩ := h.pending
  simp only [step] at hs
  split at hs
  · rename_i hpc
    cases hs
    refine h.move rfl ⟨a, ha.update rfl ha.refines (fun sid => ?_) fun _ _ _ => Iff.rfl⟩
      ⟨rfl, rfl, rfl, rfl⟩ ?_ ?_ trivial
    · rw [ha.listed, hpc]
      simp [Point.InPending]
    · simp [hpc, Point.Stamped]
    · simp [hpc]
  · cases hs

/-- `pending.set`. -/
theorem Inv.set (h : Inv cfg hash s) {r : ℕ} (hs : step cfg hash s (.set r) = some t) :
    Inv cfg hash t := by
  obtain ⟨a, ha⟩ := h.pending
  simp only [step] at hs
  split at hs
  · rename_i hpc
    split at hs
    · rename_i hpub
      obtain ⟨hans, href⟩ := ha.refines.set (s.streamId r) r
      generalize s.pending.set cfg.hash (s.streamId r) r = res at hs hans href
      obtain ⟨pending, result⟩ := res
      by_cases hkey : s.streamId r ∈ a
      · rw [if_pos hkey] at hans href
        cases hans
        cases hs
        refine h.move rfl ⟨a, ha.update rfl href (fun sid => ?_) fun _ _ _ => Iff.rfl⟩
          ⟨rfl, rfl, rfl, rfl⟩ ?_ ?_ trivial
        · rw [ha.listed, hpc]
          simp [Point.InPending]
        · simp [hpc, Point.Stamped]
        · simp [hpc]
      · rw [if_neg hkey] at hans href
        cases hans
        cases hs
        refine h.move rfl ⟨_, ha.insert rfl href hkey hpub ?_⟩ ⟨rfl, rfl, rfl, rfl⟩ ?_ ?_ ?_
        · cases hres : cfg.hasResult <;> trivial
        · cases hres : cfg.hasResult <;> simp [hpc, Point.Stamped]
        · cases hres : cfg.hasResult <;> simp [hpc]
        · cases hres : cfg.hasResult <;> simp [Point.Ok, hres]
    · rename_i hpub
      cases hs
      have hres : cfg.hasResult = false := by
        cases hres : cfg.hasResult with
        | false => rfl
        | true => exact absurd (publishes_of_hasResult hres) hpub
      refine h.move rfl ⟨a, ha.update rfl ha.refines (fun sid => ?_) fun _ _ _ => Iff.rfl⟩
        ⟨rfl, rfl, rfl, rfl⟩ ?_ ?_ trivial
      · rw [ha.listed]
        simp [hpub]
      · simp [hres]
      · simp [hpc]
  · cases hs

/-- A request takes its entry out of `pending`, with nothing done to the metrics. -/
theorem Inv.takeOut (h : Inv cfg hash s) (ha : PendingOk cfg s a) {r : ℕ} {p : Point}
    {pending : RotatingMap String ℕ} (href : Refines cfg.hash pending (a.erase (s.streamId r)))
    (hin : cfg.publishes = true ∧ (s.point r).InPending cfg.source) (hp : ¬ p.InPending cfg.source)
    (hst : cfg.hasResult = true → (p.Stamped ↔ (s.point r).Stamped))
    (hbetween : (p ≠ .stamping ∧ p ≠ .unstamping) ∧ s.point r ≠ .stamping ∧
      s.point r ≠ .unstamping) (hok : p.Ok cfg) :
    Inv cfg hash ({ s with pending := pending }.goto r p) :=
  h.move rfl ⟨_, ha.erase (p := p) rfl href hin hp⟩ ⟨rfl, rfl, rfl, rfl⟩
    (fun hres => ⟨hst hres, fun _ => rfl⟩) hbetween hok

/-- Without a result stream only the gRPC source has anything to undo. -/
theorem Inv.leaveUnlisted (h : Inv cfg hash s) {r : ℕ} (hpc : s.point r = .awaiting)
    (hsource : cfg.source ≠ .grpc) (hres : cfg.hasResult ≠ true) :
    Inv cfg hash (s.goto r .finished) := by
  obtain ⟨a, ha⟩ := h.pending
  have hpub : cfg.publishes ≠ true := by simp [Config.publishes, hsource, hres]
  refine h.move rfl ⟨a, ha.update rfl ha.refines (fun sid => ?_) fun _ _ _ => Iff.rfl⟩
    ⟨rfl, rfl, rfl, rfl⟩ (fun hc => absurd hc hres) ?_ trivial
  · rw [ha.listed]
    simp [hpub]
  · simp [hpc]

/-- The request no longer awaits results. -/
theorem Inv.leave (h : Inv cfg hash s) {r : ℕ} (hs : step cfg hash s (.leave r) = some t) :
    Inv cfg hash t := by
  obtain ⟨a, ha⟩ := h.pending
  have hpop : s.point r = .awaiting → cfg.hasResult = true → cfg.source ≠ .kafka →
      Inv cfg hash ({ s with
        pending := (s.pending.pop cfg.hash (s.streamId r)).1 }.goto r .uncounting) := by
    intro hpc hres hsource
    refine h.takeOut ha (ha.refines.pop (s.streamId r)).2 ⟨publishes_of_hasResult hres, ?_⟩ id ?_ ?_
      ⟨hres, hsource⟩
    · rw [hpc]
      trivial
    · simp [hpc, Point.Stamped]
    · simp [hpc]
  simp only [step] at hs
  split at hs
  · rename_i hpc hsource
    split at hs
    · cases hs
    · cases hs
      exact h.leaveUnlisted hpc (by simp [hsource]) ‹_›
  · rename_i hpc hsource
    -- the entry under the id is the request's own
    have hpub : cfg.publishes = true := by simp [Config.publishes, hsource]
    have hin : (s.point r).InPending cfg.source := by
      rw [hpc]
      trivial
    obtain ⟨hans, href⟩ := ha.refines.popIf (s.streamId r) (· == r)
    rw [(ha.listed _ r).2 ⟨hpub, rfl, hin⟩] at hans
    have herase : eraseIf a (s.streamId r) (· == r) = a.erase (s.streamId r) := by
      simp [eraseIf, (ha.listed _ r).2 ⟨hpub, rfl, hin⟩]
    rw [herase] at href
    generalize s.pending.popIf cfg.hash (s.streamId r) (· == r) = res at hs hans href
    obtain ⟨pending, removed⟩ := res
    have hsome : removed = some r := hans.trans (by simp)
    subst hsome
    cases hs
    cases hres : cfg.hasResult with
    | true =>
      refine h.takeOut ha href ⟨hpub, hin⟩ id ?_ ?_ ⟨hres, by simp [hsource]⟩
      · simp [hpc, Point.Stamped]
      · simp [hpc]
    | false =>
      refine h.takeOut ha href ⟨hpub, hin⟩ id ?_ ?_ trivial
      · simp [hres]
      · simp [hpc]
  · rename_i hpc hsource
    split at hs
    · cases hs
      exact hpop hpc ‹_› (by simp [hsource])
    · cases hs
      exact h.leaveUnlisted hpc (by simp [hsource]) ‹_›
  · rename_i hpc hsource
    split at hs
    · cases hs
      exact hpop hpc ‹_› (by simp [hsource])
    · cases hs
      exact h.leaveUnlisted hpc (by simp [hsource]) ‹_›
  · cases hs

theorem Inv.pop (h : Inv cfg hash s) {r : ℕ} (hs : step cfg hash s (.pop r) = some t) :
    Inv cfg hash t := by
  obtain ⟨a, ha⟩ := h.pending
  simp only [step] at hs
  split at hs
  · rename_i hpc
    cases hs
    have hok := h.points r
    rw [hpc] at hok
    refine h.takeOut ha (ha.refines.pop (s.streamId r)).2 ⟨publishes_of_hasResult hok.1, ?_⟩ ?_ ?_
      ?_ trivial
    · rw [hpc]
      exact hok.2
    · exact id
    · simp [hpc, Point.Stamped]
    · simp [hpc]
  · cases hs

/-- `gauge.inc`. -/
theorem Inv.count (h : Inv cfg hash s) {r : ℕ} (hs : step cfg hash s (.count r) = some t) :
    Inv cfg hash t := by
  obtain ⟨a, ha⟩ := h.pending
  simp only [step] at hs
  split at hs
  · rename_i hpc
    cases hs
    have hnot : r ∉ s.entering := by simp [h.gauge.entering, hpc]
    have hok := h.points r
    rw [hpc] at hok
    refine ⟨⟨a, ha.goto (p := .stamping) rfl rfl (by simp [hpc, Point.InPending])⟩,
      h.stamps.same rfl rfl fun _ => ?_, ⟨?_, ?_, ?_⟩, ok_update h.points rfl hok⟩
    · simp [hpc, Point.Stamped]
    · have hgauge := h.gauge.gauge
      change s.gauge + 1 + (s.leaving.card : ℤ) =
        (s.started.ids.card : ℤ) + ((insert r s.entering).card : ℤ)
      rw [Finset.card_insert_of_notMem hnot]
      omega
    · refine mem_update rfl h.gauge.entering (fun r' hr => ?_) ?_
      · exact Finset.mem_insert.trans (or_iff_right hr)
      · exact ⟨fun _ => rfl, fun _ => Finset.mem_insert_self _ _⟩
    · refine mem_update rfl h.gauge.leaving (fun _ _ => Iff.rfl) ?_
      simp [h.gauge.leaving, hpc, State.goto]
  · cases hs

/-- The timestamp is inserted. -/
theorem Inv.stamp (h : Inv cfg hash s) {r now : ℕ} (hok : Clear cfg s (.stamp r now))
    (hs : step cfg hash s (.stamp r now) = some t) : Inv cfg hash t := by
  obtain ⟨a, ha⟩ := h.pending
  simp only [step] at hs
  split at hs
  · rename_i hpc
    cases hs
    have hmem : r ∈ s.entering := by simp [h.gauge.entering, hpc]
    have hres := h.points r
    rw [hpc] at hres
    obtain ⟨hstamps, hnew⟩ := h.stamps.stamp (t := { s.goto r .awaiting with
        started := s.started.insert hash (s.streamId r) now
        entering := s.entering.erase r }) rfl rfl hres (h.stamp_free hpc hok)
    refine ⟨⟨a, ha.goto (p := .awaiting) rfl rfl (by simp [hpc, Point.InPending])⟩,
      hstamps, ⟨?_, ?_, ?_⟩, ok_update h.points rfl trivial⟩
    · have hgauge := h.gauge.gauge
      have hcard := Finset.card_erase_add_one hmem
      change s.gauge + (s.leaving.card : ℤ) =
        ((s.started.insert hash (s.streamId r) now).ids.card : ℤ) + ((s.entering.erase r).card : ℤ)
      rw [h.stamps.wf.ids_insert, Finset.card_insert_of_notMem hnew]
      omega
    · refine mem_update rfl h.gauge.entering (fun r' hr => ?_) ?_
      · exact Finset.mem_erase.trans (and_iff_right hr)
      · simp
    · refine mem_update rfl h.gauge.leaving (fun _ _ => Iff.rfl) ?_
      simp [h.gauge.leaving, hpc, State.goto]
  · cases hs

/-- `gauge.dec`. -/
theorem Inv.uncount (h : Inv cfg hash s) {r : ℕ} (hs : step cfg hash s (.uncount r) = some t) :
    Inv cfg hash t := by
  obtain ⟨a, ha⟩ := h.pending
  simp only [step] at hs
  split at hs
  · rename_i hpc
    cases hs
    have hok := h.points r
    have hold : (s.point r).Stamped ∧ s.point r ≠ .stamping ∧ s.point r ≠ .unstamping ∧
        cfg.hasResult = true ∧
        (Point.unstamping.InPending cfg.source ↔ (s.point r).InPending cfg.source) := by
      rcases hpc with hpc | ⟨hpc, hsource, hres⟩
      · rw [hpc] at hok ⊢
        exact ⟨trivial, by simp, by simp, hok.1, ⟨hok.2, False.elim⟩⟩
      · rw [hpc]
        exact ⟨trivial, by simp, by simp, hres, ⟨fun _ => trivial, fun _ => hsource⟩⟩
    obtain ⟨hst, hne, hne', hres, hin⟩ := hold
    have hnot : r ∉ s.leaving := by simp [h.gauge.leaving, hne']
    refine ⟨⟨a, ha.goto (p := .unstamping) rfl rfl hin⟩, h.stamps.same rfl rfl fun _ => ?_,
      ⟨?_, ?_, ?_⟩, ok_update h.points rfl hres⟩
    · exact ⟨⟨fun _ => hst, fun _ => trivial⟩, fun _ => rfl⟩
    · have hgauge := h.gauge.gauge
      change s.gauge - 1 + ((insert r s.leaving).card : ℤ) =
        (s.started.ids.card : ℤ) + (s.entering.card : ℤ)
      rw [Finset.card_insert_of_notMem hnot]
      omega
    · refine mem_update rfl h.gauge.entering (fun _ _ => Iff.rfl) ?_
      simp [h.gauge.entering, hne, State.goto]
    · refine mem_update rfl h.gauge.leaving (fun r' hr => ?_) ?_
      · exact Finset.mem_insert.trans (or_iff_right hr)
      · exact ⟨fun _ => rfl, fun _ => Finset.mem_insert_self _ _⟩
  · cases hs

/-- The timestamp is removed. -/
theorem Inv.unstamp (h : Inv cfg hash s) {r : ℕ} (hs : step cfg hash s (.unstamp r) = some t) :
    Inv cfg hash t := by
  obtain ⟨a, ha⟩ := h.pending
  simp only [step] at hs
  split at hs
  · rename_i hpc
    cases hs
    have hmem : r ∈ s.leaving := by simp [h.gauge.leaving, hpc]
    have hres := h.points r
    rw [hpc] at hres
    obtain ⟨p, hp, hpeq, hout, hunst, hmoved⟩ : ∃ p, p.Ok cfg ∧
        (if cfg.source = .kafka then Point.popping else .finished) = p ∧
        (p.InPending cfg.source ↔ cfg.source = .kafka) ∧ ¬ p.Stamped ∧
        p ≠ .stamping ∧ p ≠ .unstamping := by
      by_cases hsource : cfg.source = .kafka
      · exact ⟨.popping, ⟨hres, hsource⟩, if_pos hsource, Iff.rfl, id, by simp, by simp⟩
      · exact ⟨.finished, trivial, if_neg hsource, ⟨False.elim, hsource⟩, id, by simp, by simp⟩
    rw [hpeq]
    obtain ⟨hstamps, hold⟩ := h.stamps.unstamp (t := { s.goto r p with
        started := s.started.remove hash (s.streamId r)
        leaving := s.leaving.erase r }) rfl rfl hres (by rw [hpc]; trivial) hunst
    refine ⟨⟨a, ha.goto (p := p) rfl rfl ?_⟩, hstamps, ⟨?_, ?_, ?_⟩, ok_update h.points rfl hp⟩
    · rw [hout, hpc]
      rfl
    · have hgauge := h.gauge.gauge
      have hcard := Finset.card_erase_add_one hmem
      have hcard' := Finset.card_erase_add_one hold
      change s.gauge + ((s.leaving.erase r).card : ℤ) =
        ((s.started.remove hash (s.streamId r)).ids.card : ℤ) + (s.entering.card : ℤ)
      rw [h.stamps.wf.ids_remove]
      omega
    · refine mem_update rfl h.gauge.entering (fun _ _ => Iff.rfl) ?_
      simp [h.gauge.entering, hpc, State.goto, hmoved.1]
    · refine mem_update rfl h.gauge.leaving (fun r' hr => ?_) ?_
      · exact Finset.mem_erase.trans (and_iff_right hr)
      · simp [hmoved.2]
  · cases hs

/-- **One step** that meets the condition keeps the invariant. -/
theorem Inv.step {act : Action} (h : Inv cfg hash s) (hok : Clear cfg s act)
    (hs : PendingMetrics.step cfg hash s act = some t) : Inv cfg hash t := by
  cases act with
  | arrive r streamId => exact h.arrive hs
  | set r => exact h.set hs
  | count r => exact h.count hs
  | stamp r now => exact h.stamp hok hs
  | leave r => exact h.leave hs
  | uncount r => exact h.uncount hs
  | unstamp r => exact h.unstamp hs
  | pop r => exact h.pop hs
  | rotateShard i order =>
    cases hs
    obtain ⟨a, ha⟩ := h.pending
    exact ⟨⟨a, ha.refines.rotateShard cfg.minCapacity i order, ha.listed⟩, ⟨h.stamps.wf,
      h.stamps.ids, h.stamps.unique⟩, ⟨h.gauge.gauge, h.gauge.entering, h.gauge.leaving⟩, h.points⟩

theorem inv_of_reach (h : (metrics cfg hash).Reach (Clear cfg) s) : Inv cfg hash s :=
  h.invariant (inv_init cfg hash) fun _ _ _ hi hok hs => hi.step hok hs

/-! ## Main result -/

/-- The age of pending requests ignores a request that awaits results. -/
def State.Ignored (cfg : Config) (s : State) (r : ℕ) : Prop :=
  s.point r = .awaiting ∧ s.Awaited cfg (s.streamId r) ∧ s.streamId r ∉ s.started.ids

/-- When no request is in between, a timestamp is that of a request in `pending`. -/
theorem Inv.matches (h : Inv cfg hash s) (hquiet : s.Quiet) : Matches cfg s := by
  obtain ⟨a, ha⟩ := h.pending
  have hpoint : ∀ r, (s.point r).Stamped ↔ (s.point r).InPending cfg.source := by
    intro r
    rcases hquiet r with hpc | hpc | hpc | hpc | hpc <;> simp [hpc, Point.Stamped, Point.InPending]
  have hids : ∀ streamId, streamId ∈ s.started.ids ↔ s.Awaited cfg streamId := by
    intro streamId
    rw [h.stamps.ids, State.Awaited]
    refine and_congr_right fun hres => ?_
    have hget : s.pending.get cfg.hash streamId = a.lookup streamId := ha.refines.get streamId
    rw [hget, Option.ne_none_iff_exists']
    refine exists_congr fun r => ?_
    rw [ha.listed, hpoint]
    exact (and_iff_right (publishes_of_hasResult hres)).symm
  have hbetween : ∀ r, s.point r ≠ .stamping ∧ s.point r ≠ .unstamping := by
    intro r
    rcases hquiet r with hpc | hpc | hpc | hpc | hpc <;> simp [hpc]
  refine ⟨hids, ?_, fun i streamId instant hi => PendingRequestTimestamps.oldest_le hi,
    fun hne => ?_⟩
  · have hentering : s.entering = ∅ :=
      Finset.eq_empty_of_forall_notMem fun r hr => (hbetween r).1 ((h.gauge.entering r).1 hr)
    have hleaving : s.leaving = ∅ :=
      Finset.eq_empty_of_forall_notMem fun r hr => (hbetween r).2 ((h.gauge.leaving r).1 hr)
    have hgauge := h.gauge.gauge
    rw [hentering, hleaving, Finset.card_empty] at hgauge
    omega
  · obtain ⟨i, streamId, instant, hi, holdest⟩ := PendingRequestTimestamps.exists_oldest hne
    exact ⟨i, streamId, instant, hi, holdest, (hids streamId).1
      (PendingRequestTimestamps.mem_ids.2 ⟨i, Finmap.mem_of_lookup_eq_some hi⟩)⟩

/-- Moving one request leaves the point of another, and every id. -/
theorem goto_ne (s : State) {r r' : ℕ} (hr : r ≠ r') (p : Point) :
    (s.goto r' p).point r = s.point r ∧ (s.goto r' p).streamId r = s.streamId r := by
  simp only [State.point, State.streamId, State.goto, Function.update_of_ne hr]
  exact ⟨trivial, trivial⟩

theorem goto_self (s : State) (r : ℕ) (p : Point) :
    (s.goto r p).point r = p ∧ (s.goto r p).streamId r = s.streamId r := by
  simp only [State.point, State.streamId, State.goto, Function.update_self]
  exact ⟨trivial, trivial⟩

/-- Two requests share the timestamp of an id: `r` awaits results, and `r'` is about to leave. -/
structure Shared (cfg : Config) (hash : String → ℕ) (s : State) (r r' : ℕ) : Prop where
  wf : s.started.WF hash
  ne : r ≠ r'
  awaiting : s.point r = .awaiting
  awaited : s.Awaited cfg (s.streamId r)
  streamId : s.streamId r' = s.streamId r

/-- `r'` leaves the gauge. -/
theorem Shared.uncount {r r' : ℕ} (h : Shared cfg hash s r r') (hpc : s.point r' = .uncounting) :
    ∃ u, step cfg hash s (.uncount r') = some u ∧ Shared cfg hash u r r' ∧
      u.point r' = .unstamping := by
  have hkept := goto_ne s h.ne .unstamping
  simp only [step, hpc, true_or, if_true]
  refine ⟨_, rfl, ⟨h.wf, h.ne, hkept.1.trans h.awaiting, ?_, ?_⟩, (goto_self s r' _).1⟩
  · change s.Awaited cfg ((s.goto r' _).streamId r)
    rw [hkept.2]
    exact h.awaited
  · change (s.goto r' _).streamId r' = (s.goto r' _).streamId r
    rw [hkept.2, (goto_self s r' _).2, h.streamId]

/-- `r'` takes the timestamp away. -/
theorem Shared.unstamp {r r' : ℕ} (h : Shared cfg hash s r r') (hpc : s.point r' = .unstamping) :
    ∃ u, step cfg hash s (.unstamp r') = some u ∧ u.Ignored cfg r := by
  have hkept := fun p => goto_ne s h.ne p
  simp only [step, hpc]
  refine ⟨_, rfl, (hkept _).1.trans h.awaiting, ?_, ?_⟩
  · change s.Awaited cfg ((s.goto r' _).streamId r)
    rw [(hkept _).2]
    exact h.awaited
  · change (s.goto r' _).streamId r ∉ (s.started.remove hash (s.streamId r')).ids
    rw [(hkept _).2, h.wf.ids_remove, h.streamId]
    exact Finset.notMem_erase _ _

/-- A request that records its timestamp while another one with its id is about to leave comes to
be ignored. -/
theorem Inv.stamp_ignored (h : Inv cfg hash s) {r now : ℕ}
    (hs : PendingMetrics.step cfg hash s (.stamp r now) = some t)
    (hrival : ¬ Clear cfg s (.stamp r now)) :
    ∃ actions u, (metrics cfg hash).run t actions = some u ∧ u.Ignored cfg r := by
  obtain ⟨a, ha⟩ := h.pending
  simp only [Clear, not_or, not_forall] at hrival
  obtain ⟨-, r', hleaving, hid⟩ := hrival
  rw [not_not] at hid
  simp only [PendingMetrics.step] at hs
  split at hs
  · rename_i hpc
    cases hs
    have hr : r ≠ r' := by
      rintro rfl
      rw [hpc] at hleaving
      simp at hleaving
    have hres := h.points r
    rw [hpc] at hres
    have hget : s.pending.get cfg.hash (s.streamId r) = some r :=
      (ha.refines.get _).trans ((ha.listed _ r).2 ⟨publishes_of_hasResult hres, rfl, by
        rw [hpc]
        trivial⟩)
    have hshared : Shared cfg hash { s.goto r .awaiting with
        started := s.started.insert hash (s.streamId r) now
        entering := s.entering.erase r } r r' := by
      refine ⟨h.stamps.wf.insert _ now, hr, (goto_self s r _).1, ?_, ?_⟩
      · change s.Awaited cfg ((s.goto r _).streamId r)
        rw [(goto_self s r _).2]
        exact ⟨hres, by simp [hget]⟩
      · change (s.goto r _).streamId r' = (s.goto r _).streamId r
        rw [(goto_ne s hr.symm _).2, (goto_self s r _).2, hid]
    have hpc' := (goto_ne s hr.symm .awaiting).1
    rcases hleaving with hleaving | hleaving
    · obtain ⟨u, hu, hshared', hu'⟩ := hshared.uncount (hpc'.trans hleaving)
      obtain ⟨v, hv, hignored⟩ := hshared'.unstamp hu'
      exact ⟨[.uncount r', .unstamp r'], v,
        System.run_trans (System.run_singleton hu) (System.run_singleton hv), hignored⟩
    · obtain ⟨u, hu, hignored⟩ := hshared.unstamp (hpc'.trans hleaving)
      exact ⟨[.unstamp r'], u, System.run_singleton hu, hignored⟩
  · cases hs

/-- **The age of pending requests.** In every run in which no request records its timestamp while
another one with the same id has left `pending` but not the timestamps: whenever no request is in
between, the timestamps are those of the requests in `pending` that await results, the gauge is
their number, and the observed age is that of the oldest of them. And this is exact: a request that
breaks the condition can come to await results without a timestamp. -/
theorem pending_metrics_match (h : (metrics cfg hash).Reach (Clear cfg) s) :
    (s.Quiet → Matches cfg s) ∧
    ∀ r now t, step cfg hash s (.stamp r now) = some t → ¬ Clear cfg s (.stamp r now) →
      ∃ actions u, (metrics cfg hash).run t actions = some u ∧ u.Ignored cfg r :=
  ⟨(inv_of_reach h).matches, fun _ _ _ hs hrival => (inv_of_reach h).stamp_ignored hs hrival⟩

/-! ### Runs of few requests -/

/-- The request that takes a step. -/
def Action.request : Action → Option ℕ
  | .arrive r _ | .set r | .count r | .stamp r _ | .leave r | .uncount r | .unstamp r | .pop r =>
    some r
  | .rotateShard _ _ => none

theorem step_requests_ne {act : Action} (hs : step cfg hash s act = some t) {r : ℕ}
    (hr : act.request ≠ some r) : t.requests r = s.requests r := by
  cases act <;> simp only [Action.request, ne_eq, Option.some.injEq] at hr <;>
    simp only [step] at hs <;> repeat' split at hs
  all_goals first
    | cases hs
      done
    | cases hs
      exact Function.update_of_ne (Ne.symm hr) ..
    | cases hs
      rfl

theorem run_requests_ne {actions : List Action} {r : ℕ}
    (hr : ∀ act ∈ actions, act.request ≠ some r)
    (hs : (metrics cfg hash).run s actions = some t) : t.requests r = s.requests r := by
  induction actions generalizing s with
  | nil =>
    cases hs
    rfl
  | cons act actions ih =>
    simp only [System.run, Option.bind_eq_some_iff] at hs
    obtain ⟨u, hu, hs⟩ := hs
    rw [ih (fun b hb => hr b (List.mem_cons_of_mem _ hb)) hs,
      step_requests_ne hu (hr act List.mem_cons_self)]

/-- A run of the requests `0` and `1` is over when these two are. -/
theorem quiet_of_two {actions : List Action}
    (hr : ∀ act ∈ actions, act.request = some 0 ∨ act.request = some 1)
    (hs : (metrics cfg hash).run State.init actions = some s)
    (h0 : s.point 0 = .awaiting ∨ s.point 0 = .finished) (h1 : s.point 1 = .absent ∨
      s.point 1 = .awaiting) : s.Quiet := by
  intro r
  match r with
  | 0 =>
    rcases h0 with h0 | h0 <;> simp [h0]
  | 1 =>
    rcases h1 with h1 | h1 <;> simp [h1]
  | r + 2 =>
    left
    rw [State.point, run_requests_ne (r := r + 2) (fun act hact => ?_) hs]
    · rfl
    · rcases hr act hact with h | h <;> simp [h]

/-- An HTTP request is admitted. -/
def admitted : List Action := [.arrive 0 "a", .set 0, .count 0]

theorem admitted_runs :
    ((metrics (withResult .http) String.length).run State.init admitted).map
      (fun s => decide (s.point 0 = .stamping ∧ s.point 1 = .absent ∧ s.gauge = 1)) = some true := by
  decide +kernel

/-- It has a timestamp as soon as it awaits results. -/
theorem pending_metrics_match_admitted :
    ∃ s, (metrics (withResult .http) String.length).Reach (Clear (withResult .http)) s ∧ s.Quiet ∧
      s.gauge = 1 ∧ Matches (withResult .http) s := by
  obtain ⟨s, hs, hfacts⟩ := Option.map_eq_some_iff.1 admitted_runs
  obtain ⟨h0, h1, hgauge⟩ := of_decide_eq_true hfacts
  have hreach : (metrics (withResult .http) String.length).Reach (Clear (withResult .http)) s :=
    System.Reach.run .init (by simp [admitted, Clear]) hs
  have hclear : Clear (withResult .http) s (.stamp 0 5) := by
    refine .inr fun r' hr' => ?_
    by_cases hr : r' = 0
    · simp [hr, h0] at hr'
    · rw [State.point, run_requests_ne (r := r') (by simp [admitted, Action.request, Ne.symm hr]) hs]
        at hr'
      simp [State.init] at hr'
  have hstep : ∃ t, step (withResult .http) String.length s (.stamp 0 5) = some t ∧ t.gauge = 1 ∧
      t.point 0 = .awaiting ∧ t.point 1 = .absent := by
    simp only [step, h0]
    exact ⟨_, rfl, hgauge, (goto_self s 0 _).1, (goto_ne s (by decide) _).1.trans h1⟩
  obtain ⟨t, ht, hgauge', h0', h1'⟩ := hstep
  have hreach' := hreach.step hclear ht
  have hrun : (metrics (withResult .http) String.length).run State.init
      (admitted ++ [.stamp 0 5]) = some t :=
    System.run_trans hs (System.run_singleton ht)
  have hquiet : t.Quiet :=
    quiet_of_two (by simp [admitted, Action.request]) hrun (.inl h0') (.inl h1')
  exact ⟨t, hreach', hquiet, hgauge', (pending_metrics_match hreach').1 hquiet⟩

/-- The second request with an id is admitted while the first one is between its two removals. -/
def readmitted : List Action :=
  [.arrive 0 "a", .set 0, .count 0, .stamp 0 1, .leave 0, .arrive 1 "a", .set 1, .count 1,
    .stamp 1 2, .uncount 0, .unstamp 0]

theorem readmitted_runs {source : Source} (h : source ≠ .kafka) :
    ((metrics (withResult source) String.length).run State.init readmitted).map
      (fun s => decide (s.point 0 = .finished ∧ s.point 1 = .awaiting ∧
        s.pending.get (withResult source).hash "a" = some 1 ∧ "a" ∉ s.started.ids)) =
      some true := by
  cases source <;> first | exact absurd rfl h | decide +kernel

/-- **A pending request without an age**, in every source but Kafka: the first request removes the
timestamp of the second one. -/
theorem readmitted_request_ignored :
    ¬ ∃ source, source ≠ .kafka ∧
      ∀ s, (metrics (withResult source) String.length).Reachable s → s.Quiet →
        Matches (withResult source) s := by
  rintro ⟨source, hsource, h⟩
  obtain ⟨s, hs, hfacts⟩ := Option.map_eq_some_iff.1 (readmitted_runs hsource)
  obtain ⟨h0, h1, hget, hnone⟩ := of_decide_eq_true hfacts
  have hquiet := quiet_of_two (by simp [readmitted, Action.request]) hs (.inr h0) (.inr h1)
  have hmatches := h s (System.Reachable.run .init hs) hquiet
  exact hnone ((hmatches.ids "a").2 ⟨rfl, by rw [hget]; simp⟩)

end PendingMetrics

end ServiceLib
