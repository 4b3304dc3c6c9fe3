import ServiceLib.HashMap
import ServiceLib.Transition

/-!
# Kafka partition assignments

Follows `src/datasource/kafka/checkpoint.rs`. `Assignments` maps every assigned partition to the
generation of its assignment and to a context that is cancelled when the partition is taken away.
An acknowledgement names the generation under which its message was read, and is applied only
while that generation is current.

Rebalance callbacks are serialised by the consumer, but everything else runs concurrently with
them: a callback is split where it takes or leaves the lock on `partitions`, and between two parts
any context may be cancelled and any acknowledgement may arrive.

The history of assignments and revocations is kept as ghost state; `granted` reads off it which
generation and context a partition holds.
-/

namespace ServiceLib

namespace Kafka

/-- A callback's error; the native and handler errors are their texts. -/
abbrev HandlerError := String

/-- `CheckpointOffsets`. -/
abbrev CheckpointOffsets := HashMap ℤ ℤ

/-- An element of a `TopicPartitionList`. -/
structure Item where
  topic : String
  partition : ℤ
  offset : Option ℤ

/-- What the environment answers during one rebalance callback. -/
structure Answers where
  cooperative : Bool
  restore : Except HandlerError (Option CheckpointOffsets)
  fetchWatermarks : String → ℤ → Except HandlerError (ℤ × ℤ)
  setOffset : ℤ → Except HandlerError Unit
  native : Except HandlerError Unit

/-- Native calls that change the consumer's assignment. -/
inductive Native
  | assign (list : List Item)
  | incrementalAssign (list : List Item)
  | unassign
  | incrementalUnassign (list : List Item)

/-- Ghost record of what a callback did to the partitions, newest grants first. -/
inductive Event
  | assigned (generation : ℕ) (eager : Bool) (grants : List (ℤ × ℕ))
  | revoked (eager : Bool) (partitions : List ℤ)

/-- Where the running rebalance callback is. -/
inductive Callback
  | idle
  /-- `apply` has validated the list and is about to lock `partitions`. -/
  | assigning (answers : Answers) (list : List Item)
  /-- `apply` has returned an error. -/
  | failing (error : HandlerError)
  /-- `fail` has cancelled the contexts and is about to cancel the token. -/
  | cancelling
  /-- `fail` has returned. -/
  | cleanup

/-- The immutable fields of `CheckpointContext`. -/
structure Config where
  topic : String
  restoring : Bool

/-- `Assignments`, the contexts it hands out, and the callback. Contexts are numbered in the order
they are created; each is a child of the owner's context. -/
structure State where
  partitions : HashMap ℤ (ℕ × ℕ)
  revision : ℕ
  error : Option HandlerError
  failed : Bool
  ownerCancelled : Bool
  tokens : ℕ → Bool
  nextContext : ℕ
  callback : Callback
  native : List Native
  history : List Event
  rebalances : ℕ
  /-- Ghost records: the errors given to `fail`, and those `take_error` has returned. -/
  recorded : List HandlerError
  taken : List HandlerError

namespace State

/-- `Assignments::new`. -/
def init : State where
  partitions := ∅
  revision := 0
  error := none
  failed := false
  ownerCancelled := false
  tokens := fun _ => false
  nextContext := 0
  callback := .idle
  native := []
  history := []
  rebalances := 0
  recorded := []
  taken := []

/-- `MessageContext::is_cancelled` of a partition's context. -/
def isCancelled (s : State) (context : ℕ) : Bool := s.ownerCancelled || s.tokens context

/-! ## Acknowledgements -/

/-- `Assignments::acknowledge`; `apply` is an action on whatever is outside. -/
def acknowledge {ω T : Type} (s : State) (partition : ℤ) (generation : ℕ)
    (apply : ω → Except HandlerError T × ω) (w : ω) : Except HandlerError T × ω :=
  if s.failed || !(match s.partitions.lookup partition with
      | some (g, context) => g == generation && !s.isCancelled context
      | none => false) then
    (.error "Kafka message belongs to a revoked assignment", w)
  else apply w

/-! ## The critical sections -/

/-- `for (_, ctx) in states.values() { ctx.cancel(); }` -/
def cancelAll (s : State) : State :=
  { s with tokens := fun c => s.tokens c || s.partitions.any fun _ v => v.2 == c }

/-- `if let Some((_, ctx)) = states.remove(&partition) { ctx.cancel(); }` -/
def removePartition (s : State) (partition : ℤ) : State :=
  match s.partitions.lookup partition with
  | some (_, context) =>
    { s with
      partitions := s.partitions.erase partition
      tokens := Function.update s.tokens context true }
  | none => s

/-- The removal loop over a list. -/
def removePartitions (s : State) (list : List ℤ) : State := list.foldl removePartition s

/-- `for (_, ctx) in states.values() { ctx.cancel(); } states.clear();` -/
def clear (s : State) : State := { s.cancelAll with partitions := ∅ }

/-- `states.insert(partition, (generation, self.owner.child()))`, recording the grant. -/
def insertPartition (generation : ℕ) (s : State × List (ℤ × ℕ)) (partition : ℤ) :
    State × List (ℤ × ℕ) :=
  ({ s.1 with
      partitions := s.1.partitions.insert partition (generation, s.1.nextContext)
      nextContext := s.1.nextContext + 1 },
    (partition, s.1.nextContext) :: s.2)

/-- The insertion loop over a list. -/
def insertPartitions (s : State) (generation : ℕ) (list : List ℤ) : State × List (ℤ × ℕ) :=
  list.foldl (insertPartition generation) (s, [])

/-- `validate`. -/
def validate (offsets : Option CheckpointOffsets) : Except HandlerError Unit :=
  match offsets with
  | some values =>
    if values.any fun p n => p < 0 || n < 0 then
      .error "Kafka checkpoint has a negative partition or next offset"
    else .ok ()
  | none => .ok ()

/-- The body of the validation loop. -/
def checkItem (cfg : Config) (answers : Answers) (offsets : Option CheckpointOffsets)
    (item : Item) : Except HandlerError Item := do
  if item.topic ≠ cfg.topic then throw "Kafka assigned an unexpected topic"
  match offsets with
  | none => return item
  | some offsets =>
    match offsets.lookup item.partition with
    | none => throw "Kafka checkpoint does not cover assigned partition"
    | some next =>
      let (low, high) ← answers.fetchWatermarks item.topic item.partition
      if low < 0 ∨ next < low ∨ next > high then
        throw "Kafka checkpoint is outside retained log bounds"
      answers.setOffset item.partition
      return { item with offset := some next }

/-- The part of an assignment before the lock is taken. -/
def checkAssignment (cfg : Config) (answers : Answers) (s : State) (list : List Item) :
    Except HandlerError (List Item) := do
  if s.ownerCancelled || s.failed then throw "Kafka checkpoint owner cancelled"
  let offsets ← answers.restore
  validate offsets
  if offsets.isSome ≠ cfg.restoring then throw "Kafka recovery mode changed during lifecycle"
  list.mapM (checkItem cfg answers offsets)

/-- The partitions a list names. -/
def listed (list : List Item) : List ℤ := list.map Item.partition

/-- Under the lock, an assignment first takes away what it replaces. -/
def takeAway (s : State) (cooperative : Bool) (list : List Item) : State :=
  (if cooperative then s else s.clear).removePartitions (listed list)

/-- The `u64` counter. -/
def bump (revision : ℕ) : ℕ := (revision + 1) % 2 ^ 64

/-- The locked part of an assignment. -/
def assignLocked (answers : Answers) (s : State) (list : List Item) : State :=
  let s := s.takeAway answers.cooperative list
  let s := { s with native :=
    (if answers.cooperative then .incrementalAssign list else .assign list) :: s.native }
  match answers.native with
  | .error e => { s with callback := .failing e }
  | .ok () =>
    let generation := bump s.revision
    let s := { s with revision := generation }
    let (s, grants) := s.insertPartitions generation (listed list)
    { s with
      callback := .idle
      history := .assigned generation (!answers.cooperative) grants :: s.history }

/-- The locked part of a revocation. -/
def revokeLocked (answers : Answers) (s : State) (list : List Item) : State :=
  let s :=
    if answers.cooperative then s.removePartitions (listed list) else s.clear
  let s := { s with
    native := (if answers.cooperative then .incrementalUnassign list else .unassign) :: s.native
    history := .revoked (!answers.cooperative) (listed list) :: s.history }
  match answers.native with
  | .error e => { s with callback := .failing e }
  | .ok () => { s with revision := bump s.revision, callback := .idle }

end State

/-! ## The system -/

open State

/-- The interleaved steps. -/
inductive Action
  /-- An assign callback arrives and validates its list. -/
  | assign (answers : Answers) (list : List Item)
  /-- It checks its owner again and runs its critical section. -/
  | assignLocked
  /-- A revoke callback arrives; it is one critical section. -/
  | revoke (answers : Answers) (list : List Item)
  /-- A callback with any other event. -/
  | other (event : String)
  /-- `fail`: record the error and cancel every partition's context. -/
  | fail
  /-- `fail`: cancel the `failed` token. -/
  | failToken
  /-- `let _ = consumer.unassign();` -/
  | unassign
  /-- `take_error`, when it returns an error. -/
  | takeError
  /-- The owner's context is cancelled: a stop, or a processing failure. -/
  | cancelOwner
  /-- Somebody holding a partition's context cancels it. -/
  | cancelContext (context : ℕ)

def step (cfg : Config) (s : State) : Action → Option State
  | .assign answers list =>
    match s.callback with
    | .idle =>
      let s := { s with rebalances := s.rebalances + 1 }
      match checkAssignment cfg answers s list with
      | .ok list => some { s with callback := .assigning answers list }
      | .error e => some { s with callback := .failing e }
    | _ => none
  | .assignLocked =>
    match s.callback with
    | .assigning answers list =>
      if s.ownerCancelled then
        some { s with callback := .failing "Kafka checkpoint restoration cancelled" }
      else some (s.assignLocked answers list)
    | _ => none
  | .revoke answers list =>
    match s.callback with
    | .idle => some ({ s with rebalances := s.rebalances + 1 }.revokeLocked answers list)
    | _ => none
  | .other event =>
    match s.callback with
    | .idle =>
      some { s with
        rebalances := s.rebalances + 1
        callback := .failing ("Kafka rebalance failed: " ++ event) }
    | _ => none
  | .fail =>
    match s.callback with
    | .failing e =>
      some { s.cancelAll with
        error := s.error.or (some e)
        recorded := s.recorded ++ [e]
        callback := .cancelling }
    | _ => none
  | .failToken =>
    match s.callback with
    | .cancelling => some { s with failed := true, callback := .cleanup }
    | _ => none
  | .unassign =>
    match s.callback with
    | .cleanup => some { s with native := .unassign :: s.native, callback := .idle }
    | _ => none
  | .takeError =>
    -- `fail` holds the lock on the error until it returns
    match s.callback, s.error with
    | .cancelling, _ => none
    | _, some e => some { s with error := none, taken := s.taken ++ [e] }
    | _, none => none
  | .cancelOwner => some { s with ownerCancelled := true }
  | .cancelContext context =>
    if context < s.nextContext then
      some { s with tokens := Function.update s.tokens context true }
    else none

/-- `Assignments` under every interleaving. -/
def assignments (cfg : Config) : System State Action := ⟨State.init, step cfg⟩

/-! ## What the history says -/

/-- The generation and context a partition holds: those of its latest assignment, unless it was
revoked, or replaced by an eager assignment that does not list it, since. -/
def granted : List Event → ℤ → Option (ℕ × ℕ)
  | [], _ => none
  | .assigned g eager grants :: h, p =>
    match grants.lookup p with
    | some c => some (g, c)
    | none => if eager then none else granted h p
  | .revoked eager ps :: h, p => if eager ∨ p ∈ ps then none else granted h p

/-- The generations of all assignments, latest first. -/
def generations : List Event → List ℕ
  | [] => []
  | .assigned g _ _ :: h => g :: generations h
  | .revoked _ _ :: h => generations h

/-! ## The critical sections, from outside -/

theorem tokens_cancelAll {s : State} {c : ℕ} :
    s.cancelAll.tokens c = true ↔
      s.tokens c = true ∨ ∃ p g, s.partitions.lookup p = some (g, c) := by
  simp only [cancelAll, Bool.or_eq_true, finmap_any_eq_true, beq_iff_eq]
  constructor
  · rintro (h | ⟨p, ⟨g, c'⟩, hp, rfl⟩)
    · exact Or.inl h
    · exact Or.inr ⟨p, g, hp⟩
  · rintro (h | ⟨p, g, hp⟩)
    · exact Or.inl h
    · exact Or.inr ⟨p, (g, c), hp, rfl⟩

/-- `s'` is `s` after some partitions were taken away: what is left is as before, and the context
of whatever is gone is cancelled. Nothing else changes. -/
structure Taken (gone : ℤ → Prop) (s s' : State) : Prop where
  kept : ∀ p, ¬ gone p → s'.partitions.lookup p = s.partitions.lookup p
  removed : ∀ p, gone p → s'.partitions.lookup p = none
  cancelled : ∀ p g c, gone p → s.partitions.lookup p = some (g, c) → s'.tokens c = true
  mono : ∀ c, s.tokens c = true → s'.tokens c = true
  fresh : ∀ c, s'.tokens c = true →
    s.tokens c = true ∨ ∃ p g, s.partitions.lookup p = some (g, c)
  nextContext : s'.nextContext = s.nextContext
  revision : s'.revision = s.revision
  history : s'.history = s.history
  rebalances : s'.rebalances = s.rebalances

theorem Taken.refl (s : State) : Taken (fun _ => False) s s where
  kept := fun _ _ => rfl
  removed := fun _ h => h.elim
  cancelled := fun _ _ _ h => h.elim
  mono := fun _ h => h
  fresh := fun _ h => Or.inl h
  nextContext := rfl
  revision := rfl
  history := rfl
  rebalances := rfl

theorem Taken.trans {A B : ℤ → Prop} {s t u : State} (h₁ : Taken A s t) (h₂ : Taken B t u) :
    Taken (fun p => A p ∨ B p) s u where
  kept := by
    intro p hp
    rw [h₂.kept p fun h => hp (Or.inr h), h₁.kept p fun h => hp (Or.inl h)]
  removed := by
    intro p hp
    by_cases hB : B p
    · exact h₂.removed p hB
    · rw [h₂.kept p hB]
      exact h₁.removed p (hp.resolve_right hB)
  cancelled := by
    intro p g c hp hl
    by_cases hA : A p
    · exact h₂.mono c (h₁.cancelled p g c hA hl)
    · exact h₂.cancelled p g c (hp.resolve_left hA) (by rw [h₁.kept p hA, hl])
  mono := fun c h => h₂.mono c (h₁.mono c h)
  fresh := by
    intro c hc
    rcases h₂.fresh c hc with h | ⟨p, g, hp⟩
    · exact h₁.fresh c h
    · by_cases hA : A p
      · rw [h₁.removed p hA] at hp
        cases hp
      · exact Or.inr ⟨p, g, by rw [← h₁.kept p hA, hp]⟩
  nextContext := h₂.nextContext.trans h₁.nextContext
  revision := h₂.revision.trans h₁.revision
  history := h₂.history.trans h₁.history
  rebalances := h₂.rebalances.trans h₁.rebalances

theorem Taken.congr {A B : ℤ → Prop} {s t : State} (h : Taken A s t) (hAB : ∀ p, B p ↔ A p) :
    Taken B s t := by
  have : B = A := funext fun p => propext (hAB p)
  exact this ▸ h

theorem clear_taken (s : State) : Taken (fun _ => True) s s.clear where
  kept := fun _ h => (h trivial).elim
  removed := fun p _ => Finmap.lookup_empty p
  cancelled := fun p g _ _ hl => tokens_cancelAll.2 (Or.inr ⟨p, g, hl⟩)
  mono := fun _ h => tokens_cancelAll.2 (Or.inl h)
  fresh := fun _ h => tokens_cancelAll.1 h
  nextContext := rfl
  revision := rfl
  history := rfl
  rebalances := rfl

theorem removePartition_taken (s : State) (q : ℤ) :
    Taken (fun p => p = q) s (s.removePartition q) := by
  cases hq : s.partitions.lookup q with
  | none =>
    have hs : s.removePartition q = s := by simp [removePartition, hq]
    rw [hs]
    refine { Taken.refl s with kept := fun _ _ => rfl, removed := ?_, cancelled := ?_ }
    · rintro p rfl
      exact hq
    · rintro p g c rfl hl
      rw [hq] at hl
      cases hl
  | some v =>
    obtain ⟨g, c⟩ := v
    have hs : s.removePartition q = { s with
        partitions := s.partitions.erase q
        tokens := Function.update s.tokens c true } := by
      simp [removePartition, hq]
    rw [hs]
    refine ⟨fun p hp => Finmap.lookup_erase_ne hp, ?_, ?_, ?_, ?_, rfl, rfl, rfl, rfl⟩
    · rintro p rfl
      exact Finmap.lookup_erase p _
    · rintro p g' c' rfl hl
      rw [hq, Option.some.injEq, Prod.mk.injEq] at hl
      rw [← hl.2]
      exact Function.update_self ..
    · intro c' hc'
      by_cases h : c' = c
      · subst h; exact Function.update_self ..
      · simpa [Function.update_of_ne h] using hc'
    · intro c' hc'
      by_cases h : c' = c
      · subst h; exact Or.inr ⟨q, g, hq⟩
      · exact Or.inl (by simpa [Function.update_of_ne h] using hc')

theorem removePartitions_taken (s : State) (list : List ℤ) :
    Taken (fun p => p ∈ list) s (s.removePartitions list) := by
  induction list generalizing s with
  | nil => exact (Taken.refl s).congr fun p => by simp
  | cons q list ih =>
    exact ((removePartition_taken s q).trans (ih _)).congr fun p => List.mem_cons

theorem takeAway_taken (s : State) (cooperative : Bool) (list : List Item) :
    Taken (fun p => cooperative = false ∨ p ∈ listed list) s (s.takeAway cooperative list) := by
  cases cooperative with
  | true => exact (removePartitions_taken s (listed list)).congr fun p => by simp
  | false => exact ((clear_taken s).trans (removePartitions_taken _ _)).congr fun p => by simp

/-- What the insertion loop has done so far: the grants are exactly what it bound, under fresh
contexts. -/
structure Inserted (generation : ℕ) (s : State) (r : State × List (ℤ × ℕ)) : Prop where
  lookup : ∀ p, r.1.partitions.lookup p =
    ((r.2.lookup p).map fun c => (generation, c)).or (s.partitions.lookup p)
  grants : ∀ p c, r.2.lookup p = some c → s.nextContext ≤ c ∧ c < r.1.nextContext
  nextContext : s.nextContext ≤ r.1.nextContext
  tokens : r.1.tokens = s.tokens
  history : r.1.history = s.history
  revision : r.1.revision = s.revision
  rebalances : r.1.rebalances = s.rebalances

theorem Inserted.next {generation : ℕ} {s : State} {r : State × List (ℤ × ℕ)}
    (h : Inserted generation s r) (q : ℤ) : Inserted generation s (insertPartition generation r q) where
  lookup := by
    intro p
    simp only [insertPartition, List.lookup_cons]
    by_cases hp : p = q
    · subst hp
      simp [Finmap.lookup_insert]
    · rw [Finmap.lookup_insert_of_ne _ hp, h.lookup, beq_eq_false_iff_ne.2 hp]
  grants := by
    intro p c hc
    simp only [insertPartition, List.lookup_cons] at hc ⊢
    by_cases hp : p = q
    · rw [beq_iff_eq.2 hp, Option.some.injEq] at hc
      have := h.nextContext
      omega
    · rw [beq_eq_false_iff_ne.2 hp] at hc
      have := h.grants p c hc
      omega
  nextContext := Nat.le_succ_of_le h.nextContext
  tokens := h.tokens
  history := h.history
  revision := h.revision
  rebalances := h.rebalances

theorem insertPartitions_inserted (s : State) (generation : ℕ) (list : List ℤ) :
    Inserted generation s (s.insertPartitions generation list) := by
  have hstart : Inserted generation s (s, []) :=
    ⟨fun p => by simp, fun p c hc => by simp at hc, le_rfl, rfl, rfl, rfl, rfl⟩
  unfold insertPartitions
  generalize (s, ([] : List (ℤ × ℕ))) = r at hstart
  induction list generalizing r with
  | nil => exact hstart
  | cons q list ih => exact ih _ (hstart.next q)

/-! ## The invariants -/

/-- The map of partitions and the history agree up to contexts that are cancelled anyway. -/
structure Fenced (s : State) : Prop where
  /-- What the map holds is what the history grants. -/
  live : ∀ p g c, s.partitions.lookup p = some (g, c) → granted s.history p = some (g, c)
  /-- What the history grants is in the map, or its context is cancelled. -/
  kept : ∀ p g c, granted s.history p = some (g, c) →
    s.partitions.lookup p = some (g, c) ∨ s.tokens c = true
  /-- Contexts not handed out yet are not cancelled. -/
  fresh : ∀ c, s.nextContext ≤ c → s.tokens c = false
  owned : ∀ p g c, granted s.history p = some (g, c) → c < s.nextContext

theorem fenced_init : Fenced State.init where
  live := fun p g c h => by simp [State.init] at h
  kept := fun p g c h => by simp [State.init, granted] at h
  fresh := fun _ _ => rfl
  owned := fun p g c h => by simp [State.init, granted] at h

/-- Taking partitions away without recording it keeps the fence: their contexts are cancelled. -/
theorem Fenced.taken {gone : ℤ → Prop} {s s' : State} (h : Fenced s) (ht : Taken gone s s') :
    Fenced s' where
  live := by
    intro p g c hl
    rw [ht.history]
    by_cases hg : gone p
    · rw [ht.removed p hg] at hl
      cases hl
    · exact h.live p g c (by rw [← ht.kept p hg, hl])
  kept := by
    intro p g c hg
    rw [ht.history] at hg
    rcases h.kept p g c hg with hl | hc
    · by_cases hgone : gone p
      · exact Or.inr (ht.cancelled p g c hgone hl)
      · exact Or.inl (by rw [ht.kept p hgone, hl])
    · exact Or.inr (ht.mono c hc)
  fresh := by
    intro c hc
    rw [ht.nextContext] at hc
    by_contra htrue
    rcases ht.fresh c (by simpa using htrue) with hold | ⟨p, g, hl⟩
    · rw [h.fresh c hc] at hold
      cases hold
    · exact absurd (h.owned p g c (h.live p g c hl)) (by omega)
  owned := by rw [ht.history, ht.nextContext]; exact h.owned

/-- Cancelling contexts that exist keeps the fence. -/
theorem Fenced.cancel {s : State} (h : Fenced s) {tokens : ℕ → Bool}
    (hmono : ∀ c, s.tokens c = true → tokens c = true)
    (hfresh : ∀ c, tokens c = true → s.tokens c = true ∨ c < s.nextContext) :
    Fenced { s with tokens := tokens } where
  live := h.live
  kept := fun p g c hg => (h.kept p g c hg).imp_right (hmono c)
  fresh := by
    intro c hc
    by_contra htrue
    rcases hfresh c (by simpa using htrue) with hold | hlt
    · rw [h.fresh c hc] at hold
      cases hold
    · exact absurd hlt (by simpa using hc)
  owned := h.owned

theorem Fenced.cancelAll {s : State} (h : Fenced s) : Fenced s.cancelAll := by
  refine h.cancel (fun c hc => tokens_cancelAll.2 (Or.inl hc)) fun c hc => ?_
  rcases tokens_cancelAll.1 hc with hold | ⟨p, g, hl⟩
  · exact Or.inl hold
  · exact Or.inr (h.owned p g c (h.live p g c hl))

/-- Recording the revocation of partitions that have been taken away. -/
theorem Fenced.revoked {s : State} (h : Fenced s) (eager : Bool) (ps : List ℤ)
    (hgone : ∀ p, eager = true ∨ p ∈ ps → s.partitions.lookup p = none) :
    Fenced { s with history := .revoked eager ps :: s.history } := by
  have hgranted : ∀ p g c, granted (.revoked eager ps :: s.history) p = some (g, c) →
      granted s.history p = some (g, c) := by
    intro p g c hg
    simp only [granted] at hg
    split_ifs at hg
    exact hg
  refine ⟨fun p g c hl => ?_, fun p g c hg => h.kept p g c (hgranted p g c hg), h.fresh,
    fun p g c hg => h.owned p g c (hgranted p g c hg)⟩
  have hnot : ¬ (eager = true ∨ p ∈ ps) := by
    intro hc
    rw [hgone p hc] at hl
    cases hl
  simp only [granted, if_neg hnot]
  exact h.live p g c hl

/-- Recording an assignment whose partitions have just been inserted. -/
theorem Fenced.assigned {s : State} (h : Fenced s) (generation : ℕ) (eager : Bool) (ps : List ℤ)
    (hgone : ∀ p, eager = true → s.partitions.lookup p = none) :
    let r := s.insertPartitions generation ps
    Fenced { r.1 with history := .assigned generation eager r.2 :: s.history } := by
  intro r
  have hi : Inserted generation s r := insertPartitions_inserted s generation ps
  refine ⟨fun p g c hl => ?_, fun p g c hg => ?_, fun c hc => ?_, fun p g c hg => ?_⟩
  · change r.1.partitions.lookup p = some (g, c) at hl
    rw [hi.lookup] at hl
    simp only [granted]
    cases hr : r.2.lookup p with
    | some c' => simpa [hr] using hl
    | none =>
      rw [hr] at hl
      have hl' : s.partitions.lookup p = some (g, c) := by simpa using hl
      have heager : ¬ eager = true := by
        intro he
        rw [hgone p he] at hl'
        cases hl'
      simp only [if_neg heager]
      exact h.live p g c hl'
  · simp only [granted] at hg
    change r.1.partitions.lookup p = some (g, c) ∨ r.1.tokens c = true
    rw [hi.lookup, hi.tokens]
    cases hr : r.2.lookup p with
    | some c' =>
      rw [hr] at hg
      exact Or.inl (by simpa using hg)
    | none =>
      rw [hr] at hg
      simp only at hg
      split_ifs at hg
      simpa using h.kept p g c hg
  · change r.1.tokens c = false
    rw [hi.tokens]
    exact h.fresh c (hi.nextContext.trans hc)
  · change c < r.1.nextContext
    simp only [granted] at hg
    cases hr : r.2.lookup p with
    | some c' =>
      rw [hr] at hg
      simp only [Option.some.injEq, Prod.mk.injEq] at hg
      exact hg.2 ▸ (hi.grants p c' hr).2
    | none =>
      rw [hr] at hg
      simp only at hg
      split_ifs at hg
      exact (h.owned p g c hg).trans_le hi.nextContext

theorem Fenced.revokeLocked {s : State} (h : Fenced s) (answers : Answers) (list : List Item) :
    Fenced (s.revokeLocked answers list) := by
  have key : ∀ s₁, (s₁ = if answers.cooperative then s.removePartitions (listed list) else s.clear) →
      Fenced { s₁ with history := .revoked (!answers.cooperative) (listed list) :: s₁.history } := by
    rintro s₁ rfl
    cases answers.cooperative with
    | true =>
      have ht := removePartitions_taken s (listed list)
      exact (h.taken ht).revoked _ _ fun p hp => ht.removed p (by simpa using hp)
    | false => exact (h.taken (clear_taken s)).revoked _ _ fun p _ => (clear_taken s).removed p trivial
  have hk := key _ rfl
  unfold State.revokeLocked
  cases answers.native with
  | error e => exact ⟨hk.live, hk.kept, hk.fresh, hk.owned⟩
  | ok _ => exact ⟨hk.live, hk.kept, hk.fresh, hk.owned⟩

theorem Fenced.assignLocked {s : State} (h : Fenced s) (answers : Answers) (list : List Item) :
    Fenced (s.assignLocked answers list) := by
  have ht := takeAway_taken s answers.cooperative list
  have h₁ := h.taken ht
  unfold State.assignLocked
  cases answers.native with
  | error e => exact ⟨h₁.live, h₁.kept, h₁.fresh, h₁.owned⟩
  | ok _ =>
    have hgone : ∀ p, (!answers.cooperative) = true →
        (s.takeAway answers.cooperative list).partitions.lookup p = none :=
      fun p he => ht.removed p (Or.inl (by simpa using he))
    have hs := Fenced.assigned (s := { s.takeAway answers.cooperative list with
      native := (if answers.cooperative then .incrementalAssign list else .assign list) ::
        (s.takeAway answers.cooperative list).native
      revision := bump (s.takeAway answers.cooperative list).revision })
      ⟨h₁.live, h₁.kept, h₁.fresh, h₁.owned⟩ (bump (s.takeAway answers.cooperative list).revision)
      (!answers.cooperative) (listed list) hgone
    have hi := (insertPartitions_inserted { s.takeAway answers.cooperative list with
      native := (if answers.cooperative then .incrementalAssign list else .assign list) ::
        (s.takeAway answers.cooperative list).native
      revision := bump (s.takeAway answers.cooperative list).revision }
      (bump (s.takeAway answers.cooperative list).revision) (listed list)).history
    refine ⟨?_, ?_, hs.fresh, ?_⟩ <;> simp only [hi]
    · exact hs.live
    · exact hs.kept
    · exact hs.owned

theorem Fenced.step {cfg : Config} {s t : State} {a : Action} (h : Fenced s)
    (hs : step cfg s a = some t) : Fenced t := by
  unfold Kafka.step at hs
  cases a with
  | assign answers list =>
    cases hc : s.callback <;> simp only [hc, reduceCtorEq] at hs
    split at hs <;> (cases hs; exact ⟨h.live, h.kept, h.fresh, h.owned⟩)
  | assignLocked =>
    cases hc : s.callback <;> simp only [hc, reduceCtorEq] at hs
    split_ifs at hs <;> cases hs
    · exact ⟨h.live, h.kept, h.fresh, h.owned⟩
    · exact h.assignLocked _ _
  | revoke answers list =>
    cases hc : s.callback <;> simp only [hc, reduceCtorEq] at hs
    cases hs
    exact Fenced.revokeLocked (s := { s with callback := .idle, rebalances := s.rebalances + 1 })
      ⟨h.live, h.kept, h.fresh, h.owned⟩ answers list
  | fail =>
    cases hc : s.callback <;> simp only [hc, reduceCtorEq] at hs
    cases hs
    exact ⟨h.cancelAll.live, h.cancelAll.kept, h.cancelAll.fresh, h.cancelAll.owned⟩
  | other event | failToken | unassign =>
    cases hc : s.callback <;> simp only [hc, reduceCtorEq] at hs
    cases hs
    exact ⟨h.live, h.kept, h.fresh, h.owned⟩
  | takeError =>
    simp only at hs
    split at hs <;> cases hs
    exact ⟨h.live, h.kept, h.fresh, h.owned⟩
  | cancelOwner =>
    cases hs
    exact ⟨h.live, h.kept, h.fresh, h.owned⟩
  | cancelContext context =>
    simp only at hs
    split_ifs at hs with hlt
    cases hs
    refine h.cancel (fun c hc => ?_) fun c hc => ?_
    · by_cases hcc : c = context
      · subst hcc
        exact Function.update_self ..
      · rwa [Function.update_of_ne hcc]
    · by_cases hcc : c = context
      · exact Or.inr (hcc ▸ hlt)
      · rw [Function.update_of_ne hcc] at hc
        exact Or.inl hc

theorem fenced {cfg : Config} {s : State} (h : (assignments cfg).Reachable s) : Fenced s :=
  h.invariant fenced_init fun _ _ _ hi hs => hi.step hs

/-! ### Generations -/

/-- Callbacks that have been counted but have not drawn their revision yet. -/
def pending (s : State) : ℕ :=
  match s.callback with
  | .assigning _ _ => 1
  | _ => 0

theorem bump_of_lt {n m : ℕ} (h : n + 1 ≤ m) (hm : m < 2 ^ 64) : bump n = n + 1 :=
  Nat.mod_eq_of_lt (h.trans_lt hm)

theorem assignLocked_counters (s : State) (answers : Answers) (list : List Item) :
    let t := s.assignLocked answers list
    t.rebalances = s.rebalances ∧ pending t = 0 ∧
      ((t.revision = s.revision ∧ generations t.history = generations s.history) ∨
        (t.revision = bump s.revision ∧
          generations t.history = bump s.revision :: generations s.history)) := by
  have ht := takeAway_taken s answers.cooperative list
  unfold State.assignLocked
  cases answers.native with
  | error e => exact ⟨ht.rebalances, rfl, Or.inl ⟨ht.revision, congrArg generations ht.history⟩⟩
  | ok _ =>
    have hi := insertPartitions_inserted { s.takeAway answers.cooperative list with
      native := (if answers.cooperative then .incrementalAssign list else .assign list) ::
        (s.takeAway answers.cooperative list).native
      revision := bump (s.takeAway answers.cooperative list).revision }
      (bump (s.takeAway answers.cooperative list).revision) (listed list)
    refine ⟨hi.rebalances.trans ht.rebalances, rfl, Or.inr ⟨?_, ?_⟩⟩
    · exact hi.revision.trans (congrArg bump ht.revision)
    · exact congrArg₂ List.cons (congrArg bump ht.revision)
        (congrArg generations (hi.history.trans ht.history))

theorem revokeLocked_counters (s : State) (answers : Answers) (list : List Item) :
    let t := s.revokeLocked answers list
    t.rebalances = s.rebalances ∧ pending t = 0 ∧ generations t.history = generations s.history ∧
      (t.revision = s.revision ∨ t.revision = bump s.revision) := by
  have key : ∃ gone, Taken gone s
      (if answers.cooperative then s.removePartitions (listed list) else s.clear) := by
    cases answers.cooperative with
    | true => exact ⟨_, removePartitions_taken s (listed list)⟩
    | false => exact ⟨_, clear_taken s⟩
  obtain ⟨gone, ht⟩ := key
  have hh := congrArg generations ht.history
  unfold State.revokeLocked
  cases answers.native with
  | error e => exact ⟨ht.rebalances, rfl, hh, Or.inl ht.revision⟩
  | ok _ => exact ⟨ht.rebalances, rfl, hh, Or.inr (congrArg bump ht.revision)⟩

/-- While fewer than `2 ^ 64` callbacks have run, the revision has not wrapped, so each
assignment drew a generation above all earlier ones. -/
structure Counted (s : State) : Prop where
  revision : s.revision + pending s ≤ s.rebalances
  le : ∀ g ∈ generations s.history, g ≤ s.revision
  sorted : (generations s.history).Pairwise (· > ·)

theorem Counted.keep {s t : State} (h : Counted s) (hr : t.revision = s.revision)
    (hh : generations t.history = generations s.history)
    (hp : s.rebalances + pending t ≤ t.rebalances + pending s) : Counted t where
  revision := by have := h.revision; omega
  le := by rw [hh, hr]; exact h.le
  sorted := by rw [hh]; exact h.sorted

theorem Counted.assignLocked {s : State} (h : Counted s) (answers : Answers) (list : List Item)
    (hp : pending s = 1) (hlt : s.rebalances < 2 ^ 64) : Counted (s.assignLocked answers list) := by
  have hrev := h.revision
  obtain ⟨hreb, hpend, ⟨hr, hh⟩ | ⟨hr, hh⟩⟩ := assignLocked_counters s answers list
  · exact h.keep hr hh (by omega)
  · have hb : bump s.revision = s.revision + 1 := bump_of_lt (by omega) hlt
    refine ⟨by omega, ?_, ?_⟩
    · intro g hg
      rw [hh, List.mem_cons] at hg
      rcases hg with rfl | hg
      · exact hr.ge
      · have := h.le g hg
        omega
    · rw [hh, List.pairwise_cons]
      exact ⟨fun g hg => by have := h.le g hg; omega, h.sorted⟩

theorem Counted.revokeLocked {s : State} (h : Counted s) (answers : Answers) (list : List Item)
    (hroom : s.revision + 1 ≤ s.rebalances) (hlt : s.rebalances < 2 ^ 64) :
    Counted (s.revokeLocked answers list) := by
  obtain ⟨hreb, hpend, hh, hr | hr⟩ := revokeLocked_counters s answers list
  · exact h.keep hr hh (by omega)
  · have hb : bump s.revision = s.revision + 1 := bump_of_lt hroom hlt
    refine ⟨by omega, ?_, by rw [hh]; exact h.sorted⟩
    intro g hg
    rw [hh] at hg
    have := h.le g hg
    omega

theorem rebalances_step {cfg : Config} {s t : State} {a : Action}
    (hs : step cfg s a = some t) : s.rebalances ≤ t.rebalances := by
  unfold Kafka.step at hs
  cases a with
  | assign answers list =>
    cases hc : s.callback <;> simp only [hc, reduceCtorEq] at hs
    split at hs <;> (cases hs; exact Nat.le_succ _)
  | assignLocked =>
    cases hc : s.callback <;> simp only [hc, reduceCtorEq] at hs
    split_ifs at hs <;> cases hs
    · exact le_rfl
    · exact (assignLocked_counters s _ _).1.ge
  | revoke answers list =>
    cases hc : s.callback <;> simp only [hc, reduceCtorEq] at hs
    cases hs
    rw [(revokeLocked_counters _ answers list).1]
    exact Nat.le_succ _
  | other event =>
    cases hc : s.callback <;> simp only [hc, reduceCtorEq] at hs
    cases hs
    exact Nat.le_succ _
  | fail | failToken | unassign =>
    cases hc : s.callback <;> simp only [hc, reduceCtorEq] at hs
    cases hs
    exact le_rfl
  | takeError =>
    simp only at hs
    split at hs <;> cases hs
    exact le_rfl
  | cancelOwner =>
    cases hs
    exact le_rfl
  | cancelContext context =>
    simp only at hs
    split_ifs at hs
    cases hs
    exact le_rfl

theorem Counted.step {cfg : Config} {s t : State} {a : Action} (h : Counted s)
    (hs : step cfg s a = some t) (hlt : t.rebalances < 2 ^ 64) : Counted t := by
  unfold Kafka.step at hs
  cases a with
  | assign answers list =>
    cases hc : s.callback <;> simp only [hc, reduceCtorEq] at hs
    split at hs <;> cases hs
    · exact h.keep rfl rfl (by simp [pending, hc])
    · exact h.keep rfl rfl (by simp [pending, hc])
  | assignLocked =>
    cases hc : s.callback <;> simp only [hc, reduceCtorEq] at hs
    split_ifs at hs <;> cases hs
    · exact h.keep rfl rfl (by simp [pending, hc])
    · rw [(assignLocked_counters s _ _).1] at hlt
      exact h.assignLocked _ _ (by simp [pending, hc]) hlt
  | revoke answers list =>
    cases hc : s.callback <;> simp only [hc, reduceCtorEq] at hs
    cases hs
    rw [(revokeLocked_counters _ answers list).1] at hlt
    have hk : Counted { s with callback := .idle, rebalances := s.rebalances + 1 } :=
      h.keep rfl rfl (by simp [pending, hc])
    exact hk.revokeLocked answers list (by have := h.revision; simp only; omega) hlt
  | other event =>
    cases hc : s.callback <;> simp only [hc, reduceCtorEq] at hs
    cases hs
    exact h.keep rfl rfl (by simp [pending, hc])
  | fail | failToken | unassign =>
    cases hc : s.callback <;> simp only [hc, reduceCtorEq] at hs
    cases hs
    exact h.keep rfl rfl (by simp [pending, State.cancelAll, hc])
  | takeError =>
    simp only at hs
    split at hs <;> cases hs
    exact h.keep rfl rfl le_rfl
  | cancelOwner =>
    cases hs
    exact h.keep rfl rfl le_rfl
  | cancelContext context =>
    simp only at hs
    split_ifs at hs
    cases hs
    exact h.keep rfl rfl le_rfl

theorem counted {cfg : Config} {s : State} (h : (assignments cfg).Reachable s)
    (hlt : s.rebalances < 2 ^ 64) : Counted s := by
  refine h.invariant (I := fun s => s.rebalances < 2 ^ 64 → Counted s) (fun _ => ?_) ?_ hlt
  · exact ⟨le_rfl, fun g hg => absurd hg List.not_mem_nil, List.Pairwise.nil⟩
  · intro s a t hi hs ht
    exact (hi ((rebalances_step hs).trans_lt ht)).step hs ht

/-! ## The fence -/

/-- The condition under which an acknowledgement is current: the history grants this generation to
the partition, under a context nobody has cancelled, and the assignments have not failed. -/
def Current (s : State) (partition : ℤ) (generation : ℕ) : Prop :=
  s.failed = false ∧
    ∃ context, granted s.history partition = some (generation, context) ∧
      s.isCancelled context = false

theorem Fenced.guard {s : State} (h : Fenced s) (partition : ℤ) (generation : ℕ) :
    (s.failed || !(match s.partitions.lookup partition with
      | some (g, context) => g == generation && !s.isCancelled context
      | none => false)) = false ↔ Current s partition generation := by
  rw [Bool.or_eq_false_iff, Bool.not_eq_false']
  refine and_congr_right fun _ => ?_
  constructor
  · intro hm
    cases hl : s.partitions.lookup partition with
    | none =>
      rw [hl] at hm
      cases hm
    | some v =>
      obtain ⟨g, context⟩ := v
      simp only [hl, Bool.and_eq_true, beq_iff_eq, Bool.not_eq_true'] at hm
      obtain ⟨rfl, hc⟩ := hm
      exact ⟨context, h.live _ _ _ hl, hc⟩
  · rintro ⟨context, hg, hc⟩
    rcases h.kept _ _ _ hg with hl | ht
    · simp [hl, hc]
    · simp [State.isCancelled, ht] at hc

/-- **An acknowledgement takes effect exactly under the generation its partition holds.** Whatever
has happened, `acknowledge` runs its action iff the partition's latest assignment gave it this
generation and the partition has been neither revoked nor reassigned since, its context is not
cancelled and the assignments have not failed; otherwise it answers with the fencing error and
touches nothing. No two assignments share a generation below `2 ^ 64` rebalances. -/
theorem acknowledge_fenced (cfg : Config) (s : State) (h : (assignments cfg).Reachable s) :
    (∀ (ω T : Type) (partition : ℤ) (generation : ℕ) (apply : ω → Except HandlerError T × ω)
        (w : ω),
      (Current s partition generation →
        s.acknowledge partition generation apply w = apply w) ∧
      (¬ Current s partition generation →
        s.acknowledge partition generation apply w =
          (.error "Kafka message belongs to a revoked assignment", w))) ∧
    (s.rebalances < 2 ^ 64 → (generations s.history).Nodup) := by
  refine ⟨fun ω T partition generation apply w => ⟨fun hc => ?_, fun hc => ?_⟩, fun hlt => ?_⟩
  · rw [← (fenced h).guard] at hc
    unfold State.acknowledge
    rw [hc]
    rfl
  · rw [← (fenced h).guard, Bool.not_eq_false] at hc
    unfold State.acknowledge
    rw [if_pos hc]
  · exact (counted h hlt).sorted.imp fun hgt => hgt.ne'

/-- A cooperative callback that nothing goes wrong in. -/
def calm : Answers where
  cooperative := true
  restore := .ok none
  fetchWatermarks := fun _ _ => .ok (0, 0)
  setOffset := fun _ => .ok ()
  native := .ok ()

/-- Partition 2 is assigned, revoked and assigned again. -/
def reassignment : List Action :=
  let list : List Item := [⟨"orders", 2, none⟩]
  [.assign calm list, .assignLocked, .revoke calm list, .assign calm list, .assignLocked]

theorem reassignment_runs :
    ((assignments ⟨"orders", false⟩).run State.init reassignment).isSome := by
  decide

/-- After the reassignment an acknowledgement under the first generation is refused and one under
the third is applied; the two assignments drew different generations. -/
theorem acknowledge_fenced_reassignment :
    ∃ s, (assignments ⟨"orders", false⟩).Reachable s ∧ s.rebalances < 2 ^ 64 ∧
      s.acknowledge 2 1 (fun n : ℕ => (.ok (), n + 1)) 0 =
        (.error "Kafka message belongs to a revoked assignment", 0) ∧
      s.acknowledge 2 3 (fun n : ℕ => (.ok (), n + 1)) 0 = (.ok (), 1) ∧
      (generations s.history).Nodup := by
  have h := System.reachable_get reassignment_runs
  have hf := acknowledge_fenced _ _ h
  have hg : granted (((assignments ⟨"orders", false⟩).run State.init reassignment).get
      reassignment_runs).history 2 = some (3, 1) := by decide
  refine ⟨_, h, by decide, ?_, ?_, hf.2 (by decide)⟩
  · refine (hf.1 ℕ Unit 2 1 _ 0).2 ?_
    rintro ⟨-, c, hc, -⟩
    have := hg.symm.trans hc
    simp at this
  · exact (hf.1 ℕ Unit 2 3 _ 0).1 ⟨by decide, 1, hg, by decide⟩

end Kafka

end ServiceLib
